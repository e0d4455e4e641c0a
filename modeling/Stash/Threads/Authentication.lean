import Stash.Auth.MetadataMap
import Stash.Foundation.Histories
import Stash.Threads.AuthCommands

/-! The sessions of all client threads from `connect` on, with the database that they share.
What a session has earned and what it has queued is kept in one log. -/
namespace Stash.Threads
open Foundation.CText Foundation.Runs Foundation.Histories Utils.NetworkUtils Auth

structure SessionRecord where
  sessionId : UInt64
  username : Bytes
  isAuthenticated : Bool

/-- `session_set_username` -/
def sessionSetUsername (session : SessionRecord) (username : Bytes) : SessionRecord :=
  { session with username := username.take 63, isAuthenticated := true }

/-- Where a client thread is in the code of its session: before a `recv`, or behind a command
whose database call or answer is still to come. -/
inductive FrontPlace where
  | idle
  | authLoop (n : Nat)
  | checking (n : Nat) (username password : Bytes)
  | creating (n : Nat) (username password : Bytes)
  | verifying (n : Nat) (username password : Bytes)
  | answering (n : Nat) (username : Bytes)
  | fileLoop (n : Nat)

/-- A `user_signup` or a `user_login` that returned 0, and a task that was pushed. -/
inductive FrontEvent where
  | signedUp (n : Nat) (username password : Bytes)
  | loggedIn (n : Nat) (username password : Bytes)
  | pushed (n : Nat) (task : Task)

/-- Sessions are numbered as they are created. -/
structure Frontend (ι : Type*) where
  db : Connection
  sessions : Nat → SessionRecord
  created : Nat
  place : ι → FrontPlace
  log : List FrontEvent

inductive FrontAction (ι : Type*) where
  | connect (t : ι) (sessionId : UInt64)
  | receive (t : ι) (chunk : Bytes)
  | lookUp (t : ι) (prepared : Bool)
  | create (t : ι) (fault : StmtFault)
  | verify (t : ι) (fault : StmtFault)
  | answer (t : ι) (sent : Bool)
  | menu (t : ι) (sent : Bool)
  | command (t : ι) (env : Env) (chunk : Bytes) (input : Input)
  | hangUp (t : ι)
  | database (op : Operation)

/-- The tasks among what a command has put out. -/
def queuedTasks (output : List Output) : List Task :=
  output.filterMap fun
    | .queued task => some task
    | .sent _ => none

namespace Frontend
variable {ι : Type*}

def start (t : Tables) : Frontend ι := ⟨⟨t, none⟩, fun _ => ⟨0, [], false⟩, 0, fun _ => .idle, []⟩

variable [DecidableEq ι]

def goTo (s : Frontend ι) (t : ι) (p : FrontPlace) : Frontend ι := { s with place := Function.update s.place t p }

def record (s : Frontend ι) (events : List FrontEvent) : Frontend ι := { s with log := s.log ++ events }

def setDb (s : Frontend ι) (db : Connection) : Frontend ι := { s with db := db }

def setSession (s : Frontend ι) (n : Nat) (session : SessionRecord) : Frontend ι :=
  { s with sessions := Function.update s.sessions n session }

/-- `recv` and what the command makes of it; no data ends the session. -/
def receive (s : Frontend ι) (t : ι) (n : Nat) (chunk : Bytes) : Frontend ι :=
  if chunk = [] then s.goTo t .idle
  else
    match parseAuthCommand (commandLine chunk) with
    | .signup username password => s.goTo t (.checking n username password)
    | .login username password => s.goTo t (.verifying n username password)
    | .invalid => s.goTo t (.authLoop n)

/-- The command of the file loop that `chunk` holds, with the tasks that it pushes. -/
def command (s : Frontend ι) (t : ι) (n : Nat) (env : Env) (chunk : Bytes) (input : Input) : Frontend ι :=
  let session := s.sessions n
  let next := handleCommand env ⟨session.sessionId, session.username⟩ chunk ⟨input, []⟩
  let s := s.record ((queuedTasks next.loop.output).map (.pushed n))
  match next with
  | .again _ => s.goTo t (.fileLoop n)
  | .disconnect _ => s.goTo t .idle

def step (hashPassword : Bytes → Bytes) (s : Frontend ι) : FrontAction ι → Option (Frontend ι)
  | .connect t sessionId =>
    match s.place t with
    | .idle => some { s.setSession s.created ⟨sessionId, [], false⟩ with
        created := s.created + 1, place := Function.update s.place t (.authLoop s.created) }
    | _ => none
  | .receive t chunk =>
    match s.place t with
    | .authLoop n => if (s.sessions n).isAuthenticated then none else some (s.receive t n chunk)
    | _ => none
  | .lookUp t prepared =>
    match s.place t with
    | .checking n username password =>
      if userExists prepared s.db.tables username then some (s.goTo t (.authLoop n))
      else some (s.goTo t (.creating n username password))
    | _ => none
  | .create t fault =>
    match s.place t with
    | .creating n username password =>
      let (db, result) := dbCreateUser fault s.db username (hashPassword password)
      if result = 0 then some (((s.setDb db).record [.signedUp n username password]).goTo t (.answering n username))
      else some ((s.setDb db).goTo t (.authLoop n))
    | _ => none
  | .verify t fault =>
    match s.place t with
    | .verifying n username password =>
      if userLogin hashPassword fault s.db.tables username password = 0 then
        some ((s.record [.loggedIn n username password]).goTo t (.answering n username))
      else some (s.goTo t (.authLoop n))
    | _ => none
  | .answer t sent =>
    match s.place t with
    | .answering n username =>
      if sent then some ((s.setSession n (sessionSetUsername (s.sessions n) username)).goTo t (.authLoop n))
      else some (s.goTo t .idle)
    | _ => none
  | .menu t sent =>
    match s.place t with
    | .authLoop n =>
      if !(s.sessions n).isAuthenticated then none
      else if sent then some (s.goTo t (.fileLoop n)) else some (s.goTo t .idle)
    | _ => none
  | .command t env chunk input =>
    match s.place t with
    | .fileLoop n => some (s.command t n env chunk input)
    | _ => none
  | .hangUp t =>
    match s.place t with
    | .fileLoop _ => some (s.goTo t .idle)
    | _ => none
  | .database op => some (s.setDb (op.perform s.db).1)

end Frontend

/-- The session has signed up or logged in under the name. -/
def Credited (n : Nat) (username password : Bytes) (log : List FrontEvent) : Prop :=
  .signedUp n username password ∈ log ∨ .loggedIn n username password ∈ log

/-- Every task carries a name that its session earned before; the name stands in the table with
the password that was given for it, and the workers find it. -/
structure Frontend.Authenticated {ι : Type*} (hashPassword : Bytes → Bytes) (s : Frontend ι) : Prop where
  earned : Justified (fun e before => ∀ n task, e = .pushed n task →
    ∃ password, Credited n task.username password before) s.log
  stored : ∀ n username password, Credited n username password s.log →
    (s.db.tables.user username).map User.passwordHash = some (hashPassword password)
  row : ∀ n task, .pushed n task ∈ s.log → ∃ user ∈ s.db.tables.users, user.username = task.username
  found : ∀ n task, .pushed n task ∈ s.log → userExists true s.db.tables task.username = true

/-- A command queues tasks under the name of its session. -/
theorem handleCommand_username {env : Env} {client : Client} {chunk : Bytes} {l : Loop} {task : Task}
    (h : .queued task ∈ (handleCommand env client chunk l).loop.output) :
    .queued task ∈ l.output ∨ task.username = client.username.take 63 := by
  have hmessage : ∀ (l' : Loop) (message : Bytes),
      .queued task ∈ (sendResponseMessage env l' message).loop.output → .queued task ∈ l'.output := by
    intro l' message hmem
    unfold sendResponseMessage at hmem
    split at hmem
    · split at hmem <;> simpa [Next.loop] using hmem
    · exact hmem
  have hresponse : ∀ l' : Loop, .queued task ∈ (sendResponse env l').loop.output → .queued task ∈ l'.output := by
    intro l' hmem
    unfold sendResponse at hmem
    simp only at hmem
    split at hmem
    · exact hmem
    · split at hmem
      · split at hmem
        · simpa [Next.loop] using hmem
        · simpa using hmessage _ _ hmem
      · exact hmessage _ _ hmem
  have hsubmit : ∀ (l' : Loop) (own : Task), own.username = client.username.take 63 →
      .queued task ∈ (submit env l' own).loop.output →
        .queued task ∈ l'.output ∨ task.username = client.username.take 63 := by
    intro l' own hown hmem
    unfold submit at hmem
    split at hmem
    · have hqueued := hresponse _ hmem
      rw [Loop.emit_output, List.mem_append, List.mem_singleton] at hqueued
      rcases hqueued with hold | hnew
      · exact .inl hold
      · rw [Output.queued.inj hnew]
        exact .inr hown
    · exact .inl (by simpa [Next.loop] using hmem)
  unfold handleCommand at h
  split at h
  · exact .inl (by simpa [Next.loop] using h)
  · split at h
    · exact .inl (by simpa [Next.loop] using h)
    · split at h
      · exact .inl (by simpa [Next.loop] using h)
      · unfold queueUpload at h
        split at h
        · exact .inl (by simpa [Next.loop] using h)
        · have hmem := hsubmit (l.rest _) _ rfl h
          exact hmem
  · exact hsubmit _ _ rfl h
  · exact hsubmit _ _ rfl h
  · exact hsubmit _ _ rfl h
  · exact .inl (by simpa [Next.loop] using h)

/-- The session that a thread serves. -/
def FrontPlace.session : FrontPlace → Option Nat
  | .idle => none
  | .authLoop n | .checking n _ _ | .creating n _ _ | .verifying n _ _ | .answering n _ | .fileLoop n => some n

namespace Frontend
variable {ι : Type*} {hashPassword : Bytes → Bytes} {s s' : Frontend ι} {p : FrontPlace}

/-- What a thread knows of its session. -/
def Stands (s : Frontend ι) : FrontPlace → Prop
  | .idle => True
  | .authLoop n => n < s.created
  | .checking n username _ | .creating n username _ | .verifying n username _ =>
    n < s.created ∧ (s.sessions n).isAuthenticated = false ∧ ∃ u : Username, u.text = username
  | .answering n username =>
    n < s.created ∧ (s.sessions n).isAuthenticated = false ∧ ∃ password, Credited n username password s.log
  | .fileLoop n => n < s.created ∧ (s.sessions n).isAuthenticated = true

/-- The invariant. A session belongs to one thread, and its name is one that it has earned. -/
structure Kept (hashPassword : Bytes → Bytes) (s : Frontend ι) : Prop where
  idle : s.db.saved = none
  earned : Justified (fun e before => ∀ n task, e = .pushed n task →
    ∃ password, Credited n task.username password before) s.log
  stored : ∀ n username password, Credited n username password s.log →
    (s.db.tables.user username).map User.passwordHash = some (hashPassword password)
  words : ∀ n username password, Credited n username password s.log → ∃ u : Username, u.text = username
  stands : ∀ t, s.Stands (s.place t)
  named : ∀ n, (s.sessions n).isAuthenticated = true →
    n < s.created ∧ ∃ password, Credited n (s.sessions n).username password s.log
  own : ∀ t t' n, (s.place t).session = some n → (s.place t').session = some n → t = t'

theorem Credited.append {n : Nat} {username password : Bytes} {log : List FrontEvent}
    (h : Credited n username password log) (more : List FrontEvent) : Credited n username password (log ++ more) :=
  h.imp (List.mem_append_left _) (List.mem_append_left _)

/-- Every task of the log has its credit in the whole log. -/
theorem Kept.credit (h : s.Kept hashPassword) {n : Nat} {task : Task} (hmem : .pushed n task ∈ s.log) :
    ∃ password, Credited n task.username password s.log := by
  obtain ⟨before, after, hlog⟩ := List.append_of_mem hmem
  obtain ⟨password, hcredit⟩ := h.earned before _ after hlog n task rfl
  exact ⟨password, hlog ▸ Credited.append hcredit _⟩

theorem Kept.authenticated (h : s.Kept hashPassword) : s.Authenticated hashPassword where
  earned := h.earned
  stored := h.stored
  row := by
    intro n task hmem
    obtain ⟨password, hcredit⟩ := h.credit hmem
    obtain ⟨user, huser, _⟩ := Option.map_eq_some_iff.mp (h.stored n _ password hcredit)
    exact ⟨user, Tables.user_eq_some huser⟩
  found := by
    intro n task hmem
    obtain ⟨password, hcredit⟩ := h.credit hmem
    obtain ⟨user, huser, _⟩ := Option.map_eq_some_iff.mp (h.stored n _ password hcredit)
    rw [userExists, Tables.userId_eq, huser]
    rfl

theorem kept_start (t : Tables) : (start t : Frontend ι).Kept hashPassword where
  idle := rfl
  earned := justified_nil
  stored := fun _ _ _ h => by rcases h with h | h <;> cases h
  words := fun _ _ _ h => by rcases h with h | h <;> cases h
  stands := fun _ => trivial
  named := fun _ h => by cases h
  own := fun _ _ _ h => by cases h

theorem Stands.mono (h : s.Stands p) (hcreated : s.created ≤ s'.created)
    (hsession : ∀ n, p.session = some n → n < s.created → s'.sessions n = s.sessions n)
    (hlog : ∃ more, s'.log = s.log ++ more) : s'.Stands p := by
  cases p with
  | idle => trivial
  | authLoop n => exact Nat.lt_of_lt_of_le h hcreated
  | answering n username =>
    obtain ⟨hn, hauth, password, hcredit⟩ := h
    obtain ⟨more, hmore⟩ := hlog
    refine ⟨Nat.lt_of_lt_of_le hn hcreated, ?_, password, hmore ▸ Credited.append hcredit more⟩
    rw [hsession n rfl hn]
    exact hauth
  | fileLoop n =>
    refine ⟨Nat.lt_of_lt_of_le h.1 hcreated, ?_⟩
    rw [hsession n rfl h.1]
    exact h.2
  | checking n username password | creating n username password | verifying n username password =>
    refine ⟨Nat.lt_of_lt_of_le h.1 hcreated, ?_, h.2.2⟩
    rw [hsession n rfl h.1]
    exact h.2.1

theorem Stands.lt (h : s.Stands p) {n : Nat} (hn : p.session = some n) : n < s.created := by
  cases p with
  | idle => cases hn
  | authLoop m => exact Option.some.inj hn ▸ h
  | checking m _ _ | creating m _ _ | verifying m _ _ | answering m _ | fileLoop m =>
    exact Option.some.inj hn ▸ h.1

/-- The database goes on, and no password changes. -/
theorem Kept.setDb (h : s.Kept hashPassword) {db : Connection} (hidle : db.saved = none)
    (hpasswords : ∀ username hash, (s.db.tables.user username).map User.passwordHash = some hash →
      (db.tables.user username).map User.passwordHash = some hash) : (s.setDb db).Kept hashPassword :=
  { h with
    idle := hidle
    stored := fun n username password hcredit => hpasswords username _ (h.stored n username password hcredit)
    stands := fun t => (h.stands t).mono (Nat.le_refl _) (fun _ _ _ => rfl) ⟨[], (List.append_nil _).symm⟩ }

theorem Kept.record (h : s.Kept hashPassword) (events : List FrontEvent)
    (hearned : ∀ e ∈ events, ∀ n task, e = .pushed n task → ∃ password, Credited n task.username password s.log)
    (hcredits : ∀ n username password, Credited n username password events →
      (s.db.tables.user username).map User.passwordHash = some (hashPassword password) ∧
        ∃ u : Username, u.text = username) : (s.record events).Kept hashPassword := by
  have hsplit : ∀ n username password, Credited n username password (s.log ++ events) →
      Credited n username password s.log ∨ Credited n username password events := by
    intro n username password hcredit
    simp only [Credited, List.mem_append] at hcredit ⊢
    rcases hcredit with (hold | hnew) | (hold | hnew)
    · exact .inl (.inl hold)
    · exact .inr (.inl hnew)
    · exact .inl (.inr hold)
    · exact .inr (.inr hnew)
  refine { h with
    earned := h.earned.append fun e he more n task hpushed => ?_
    stored := fun n username password hcredit => ?_
    words := fun n username password hcredit => ?_
    stands := fun t => (h.stands t).mono (Nat.le_refl _) (fun _ _ _ => rfl) ⟨events, rfl⟩
    named := fun n hauth => ?_ }
  · obtain ⟨password, hcredit⟩ := hearned e he n task hpushed
    exact ⟨password, Credited.append hcredit more⟩
  · exact (hsplit n username password hcredit).elim (h.stored n username password)
      fun hnew => (hcredits n username password hnew).1
  · exact (hsplit n username password hcredit).elim (h.words n username password)
      fun hnew => (hcredits n username password hnew).2
  · obtain ⟨hn, password, hcredit⟩ := h.named n hauth
    exact ⟨hn, password, Credited.append hcredit events⟩

variable [DecidableEq ι]

/-- A thread goes on within its session, or leaves it. -/
theorem Kept.goTo (h : s.Kept hashPassword) {t : ι} (hp : s.Stands p)
    (hsession : ∀ n, p.session = some n → (s.place t).session = some n) : (s.goTo t p).Kept hashPassword := by
  have hback : ∀ u n, (Function.update s.place t p u).session = some n → (s.place u).session = some n := by
    intro u n hu
    by_cases hut : u = t
    · subst hut
      rw [Function.update_self] at hu
      exact hsession n hu
    · rwa [Function.update_of_ne hut] at hu
  refine { h with
    stands := fun u => ?_
    own := fun u u' n hu hu' => h.own u u' n (hback u n hu) (hback u' n hu') }
  have hstands : s.Stands (Function.update s.place t p u) := by
    by_cases hut : u = t
    · rw [hut, Function.update_self]
      exact hp
    · rw [Function.update_of_ne hut]
      exact h.stands u
  exact hstands.mono (Nat.le_refl _) (fun _ _ _ => rfl) ⟨[], (List.append_nil _).symm⟩

/-- A new session, for a thread that had none. -/
private theorem Kept.connect (h : s.Kept hashPassword) (t : ι) (sessionId : UInt64) :
    Kept hashPassword { s.setSession s.created ⟨sessionId, [], false⟩ with
      created := s.created + 1, place := Function.update s.place t (.authLoop s.created) } := by
  have hold : ∀ n < s.created, Function.update s.sessions s.created ⟨sessionId, [], false⟩ n = s.sessions n :=
    fun n hn => Function.update_of_ne (Nat.ne_of_lt hn) _ _
  have hplace : ∀ u n, (Function.update s.place t (.authLoop s.created) u).session = some n →
      (u = t ∧ n = s.created) ∨ (u ≠ t ∧ (s.place u).session = some n) := by
    intro u n hu
    by_cases hut : u = t
    · rw [hut, Function.update_self] at hu
      exact .inl ⟨hut, (Option.some.inj hu).symm⟩
    · rw [Function.update_of_ne hut] at hu
      exact .inr ⟨hut, hu⟩
  refine { h with stands := fun u => ?_, named := fun n hauth => ?_, own := fun u u' n hu hu' => ?_ }
  · by_cases hut : u = t
    · subst hut
      simp only [Function.update_self]
      exact Nat.lt_succ_self _
    · simp only [Function.update_of_ne hut]
      exact (h.stands u).mono (Nat.le_succ _) (fun n _ hn => hold n hn) ⟨[], (List.append_nil _).symm⟩
  · by_cases hn : n = s.created
    · subst hn
      simp only [setSession, Function.update_self] at hauth
      cases hauth
    · have hsame : Function.update s.sessions s.created ⟨sessionId, [], false⟩ n = s.sessions n :=
        Function.update_of_ne hn _ _
      simp only [setSession, hsame] at hauth ⊢
      exact ⟨Nat.lt_succ_of_lt (h.named n hauth).1, (h.named n hauth).2⟩
  · rcases hplace u n hu with ⟨rfl, rfl⟩ | ⟨_, hu⟩
    · rcases hplace u' _ hu' with ⟨rfl, _⟩ | ⟨_, hu'⟩
      · rfl
      · exact absurd ((h.stands u').lt hu') (Nat.lt_irrefl _)
    · rcases hplace u' n hu' with ⟨_, rfl⟩ | ⟨_, hu'⟩
      · exact absurd ((h.stands u).lt hu) (Nat.lt_irrefl _)
      · exact h.own u u' n hu hu'

/-- The name is set in the session of the thread whose credit it is. -/
private theorem Kept.answer (h : s.Kept hashPassword) {t : ι} {n : Nat} {username : Bytes}
    (ht : s.place t = .answering n username) :
    ((s.setSession n (sessionSetUsername (s.sessions n) username)).goTo t (.authLoop n)).Kept hashPassword := by
  have hstands := h.stands t
  rw [ht] at hstands
  obtain ⟨hn, hauth, password, hcredit⟩ := hstands
  have hgone : (s.goTo t (.authLoop n)).Kept hashPassword := h.goTo hn fun m hm => by rw [ht]; exact hm
  have hplace : (s.goTo t (.authLoop n)).place t = .authLoop n := Function.update_self ..
  refine { hgone with stands := fun u => ?_, named := fun m hm => ?_ }
  · by_cases hut : u = t
    · subst hut
      have hself : ((s.setSession n (sessionSetUsername (s.sessions n) username)).goTo u (.authLoop n)).place u =
          .authLoop n := hplace
      rw [hself]
      exact hn
    · refine (hgone.stands u).mono (Nat.le_refl _) (fun m hm _ => ?_) ⟨[], (List.append_nil _).symm⟩
      refine Function.update_of_ne ?_ _ _
      rintro rfl
      exact hut (hgone.own u t m hm (by rw [hplace]; rfl))
  · by_cases hmn : m = n
    · subst hmn
      obtain ⟨u, rfl⟩ := h.words m username password hcredit
      refine ⟨hn, password, ?_⟩
      show Credited m (Function.update s.sessions m (sessionSetUsername (s.sessions m) u.text) m).username password s.log
      rw [Function.update_self, sessionSetUsername, List.take_of_length_le u.length_le]
      exact hcredit
    · have hsame : ((s.setSession n (sessionSetUsername (s.sessions n) username)).goTo t (.authLoop n)).sessions m =
          s.sessions m := Function.update_of_ne hmn _ _
      rw [hsame] at hm ⊢
      exact h.named m hm

private theorem Kept.receive (h : s.Kept hashPassword) {t : ι} {n : Nat} (ht : s.place t = .authLoop n)
    (hauth : (s.sessions n).isAuthenticated = false) (chunk : Bytes) : (s.receive t n chunk).Kept hashPassword := by
  have hn : n < s.created := by
    have hstands := h.stands t
    rwa [ht] at hstands
  unfold Frontend.receive
  split
  · exact h.goTo trivial fun m hm => by cases hm
  · split
    · rename_i username password hparse
      have hword := (parseAuthCommand_words (commandLine_no_nul chunk) (.inl hparse)).1
      exact h.goTo ⟨hn, hauth, hword⟩ fun m hm => by rw [ht]; exact hm
    · rename_i username password hparse
      have hword := (parseAuthCommand_words (commandLine_no_nul chunk) (.inr hparse)).1
      exact h.goTo ⟨hn, hauth, hword⟩ fun m hm => by rw [ht]; exact hm
    · exact h.goTo hn fun m hm => by rw [ht]; exact hm

/-- The tasks of a command carry the name of the session, which is at most 63 bytes long. -/
private theorem Kept.command (h : s.Kept hashPassword) {t : ι} {n : Nat} (ht : s.place t = .fileLoop n) (env : Env)
    (chunk : Bytes) (input : Input) : (s.command t n env chunk input).Kept hashPassword := by
  have hstands := h.stands t
  rw [ht] at hstands
  obtain ⟨hn, hauth⟩ := hstands
  obtain ⟨_, password, hcredit⟩ := h.named n hauth
  obtain ⟨u, hu⟩ := h.words n _ password hcredit
  unfold Frontend.command
  simp only
  generalize hnext : handleCommand env ⟨(s.sessions n).sessionId, (s.sessions n).username⟩ chunk ⟨input, []⟩ = next
  have hrecord : (s.record ((queuedTasks next.loop.output).map (.pushed n))).Kept hashPassword := by
    refine h.record _ (fun e he m task hpushed => ?_) fun m name word hcredit => ?_
    · obtain ⟨own, hown, rfl⟩ := List.mem_map.mp he
      obtain ⟨rfl, rfl⟩ := FrontEvent.pushed.inj hpushed
      obtain ⟨o, ho, hqueued⟩ := List.mem_filterMap.mp hown
      cases o with
      | sent text => cases hqueued
      | queued task =>
        obtain rfl := Option.some.inj hqueued
        have hname := (handleCommand_username (hnext ▸ ho)).resolve_left (by simp)
        have hlength : (s.sessions n).username.length ≤ 63 := hu ▸ u.length_le
        rw [hname, List.take_of_length_le hlength]
        exact ⟨password, hcredit⟩
    · rcases hcredit with hmem | hmem
      · obtain ⟨_, _, heq⟩ := List.mem_map.mp hmem
        cases heq
      · obtain ⟨_, _, heq⟩ := List.mem_map.mp hmem
        cases heq
  cases next with
  | again l => exact hrecord.goTo ⟨hn, hauth⟩ fun m hm => by rw [← hm]; exact congrArg _ ht
  | disconnect l => exact hrecord.goTo trivial fun m hm => by cases hm

private theorem Kept.create (h : s.Kept hashPassword) {t : ι} {n : Nat} {username password : Bytes}
    (ht : s.place t = .creating n username password) (fault : StmtFault)
    (hs : s.step hashPassword (.create t fault) = some s') : s'.Kept hashPassword := by
  have hstands := h.stands t
  rw [ht] at hstands
  obtain ⟨hn, hauth, hword⟩ := hstands
  have hdb : (s.setDb (dbCreateUser fault s.db username (hashPassword password)).1).Kept hashPassword :=
    h.setDb (dbCreateUser_idle fault h.idle _ _) fun name hash hold => dbCreateUser_password fault _ _ hold
  have hsession : ∀ m, some n = some m → (s.place t).session = some m := fun m hm => by rw [ht]; exact hm
  simp only [step, ht] at hs
  split at hs
  · rename_i hcode
    rcases dbCreateUser_cases fault s.db username (hashPassword password) with ⟨_, _, hname, hdone⟩ |
      ⟨_, _, _, hdone⟩ | ⟨_, hdone⟩
    · obtain rfl := Option.some.inj hs
      have hstored : ((dbCreateUser fault s.db username (hashPassword password)).1.tables.user username).map
          User.passwordHash = some (hashPassword password) := by
        rw [hdone]
        simp only [Connection.exec]
        rw [Tables.user_insertUser hname, if_pos rfl, Option.map_some]
      have hrecord := hdb.record [.signedUp n username password]
        (fun e he m task hpushed => by rw [List.mem_singleton.mp he] at hpushed; cases hpushed)
        (fun m name word hcredit => by
          rcases hcredit with hmem | hmem
          · obtain ⟨rfl, rfl, rfl⟩ := FrontEvent.signedUp.inj (List.mem_singleton.mp hmem)
            exact ⟨hstored, hword⟩
          · cases List.mem_singleton.mp hmem)
      exact hrecord.goTo ⟨hn, hauth, password, .inl (List.mem_append_right _ (List.mem_singleton_self _))⟩ hsession
    · rw [hdone] at hcode
      cases hcode
    · rw [hdone] at hcode
      cases hcode
  · obtain rfl := Option.some.inj hs
    exact hdb.goTo hn hsession

private theorem Kept.verify (h : s.Kept hashPassword) {t : ι} {n : Nat} {username password : Bytes}
    (ht : s.place t = .verifying n username password) (fault : StmtFault)
    (hs : s.step hashPassword (.verify t fault) = some s') : s'.Kept hashPassword := by
  have hstands := h.stands t
  rw [ht] at hstands
  obtain ⟨hn, hauth, hword⟩ := hstands
  have hsession : ∀ m, some n = some m → (s.place t).session = some m := fun m hm => by rw [ht]; exact hm
  simp only [step, ht] at hs
  split at hs
  · rename_i hcode
    obtain rfl := Option.some.inj hs
    have hstored := userLogin_stored hcode
    have hrecord := h.record [.loggedIn n username password]
      (fun e he m task hpushed => by rw [List.mem_singleton.mp he] at hpushed; cases hpushed)
      (fun m name word hcredit => by
        rcases hcredit with hmem | hmem
        · cases List.mem_singleton.mp hmem
        · obtain ⟨rfl, rfl, rfl⟩ := FrontEvent.loggedIn.inj (List.mem_singleton.mp hmem)
          exact ⟨hstored, hword⟩)
    exact hrecord.goTo ⟨hn, hauth, password, .inr (List.mem_append_right _ (List.mem_singleton_self _))⟩ hsession
  · obtain rfl := Option.some.inj hs
    exact h.goTo hn hsession

theorem kept_step (h : s.Kept hashPassword) {a : FrontAction ι} (hs : s.step hashPassword a = some s') :
    s'.Kept hashPassword := by
  cases a with
  | connect t sessionId =>
    simp only [step] at hs
    split at hs
    · exact Option.some.inj hs ▸ h.connect t sessionId
    · cases hs
  | receive t chunk =>
    simp only [step] at hs
    split at hs
    · rename_i n ht
      split at hs
      · cases hs
      · rename_i hauth
        exact Option.some.inj hs ▸ h.receive ht (Bool.eq_false_iff.mpr hauth) chunk
    · cases hs
  | lookUp t prepared =>
    simp only [step] at hs
    split at hs
    · rename_i n username password ht
      have hstands := h.stands t
      rw [ht] at hstands
      have hsession : ∀ m, some n = some m → (s.place t).session = some m := fun m hm => by rw [ht]; exact hm
      split at hs
      · exact Option.some.inj hs ▸ h.goTo hstands.1 hsession
      · exact Option.some.inj hs ▸ h.goTo hstands hsession
    · cases hs
  | create t fault =>
    cases ht : s.place t with
    | creating n username password => exact h.create ht fault hs
    | _ => simp only [step, ht] at hs; cases hs
  | verify t fault =>
    cases ht : s.place t with
    | verifying n username password => exact h.verify ht fault hs
    | _ => simp only [step, ht] at hs; cases hs
  | answer t sent =>
    simp only [step] at hs
    split at hs
    · rename_i n username ht
      split at hs
      · exact Option.some.inj hs ▸ h.answer ht
      · exact Option.some.inj hs ▸ h.goTo trivial fun m hm => by cases hm
    · cases hs
  | menu t sent =>
    simp only [step] at hs
    split at hs
    · rename_i n ht
      have hstands := h.stands t
      rw [ht] at hstands
      split at hs
      · cases hs
      · rename_i hauth
        split at hs
        · exact Option.some.inj hs ▸ h.goTo ⟨hstands, by simpa using hauth⟩ fun m hm => by rw [ht]; exact hm
        · exact Option.some.inj hs ▸ h.goTo trivial fun m hm => by cases hm
    · cases hs
  | command t env chunk input =>
    simp only [step] at hs
    split at hs
    · rename_i n ht
      exact Option.some.inj hs ▸ h.command ht env chunk input
    · cases hs
  | hangUp t =>
    simp only [step] at hs
    split at hs
    · exact Option.some.inj hs ▸ h.goTo trivial fun m hm => by cases hm
    · cases hs
  | database op =>
    obtain rfl := Option.some.inj hs
    exact h.setDb (op.perform_idle h.idle) fun username hash hold => op.perform_password h.idle hold

/-- A session that has its name keeps it. -/
theorem sessions_step (h : s.Kept hashPassword) {a : FrontAction ι} (hs : s.step hashPassword a = some s') {n : Nat}
    (hauth : (s.sessions n).isAuthenticated = true) : s'.sessions n = s.sessions n := by
  cases a with
  | connect t sessionId =>
    simp only [step] at hs
    split at hs
    · obtain rfl := Option.some.inj hs
      exact Function.update_of_ne (Nat.ne_of_lt (h.named n hauth).1) _ _
    · cases hs
  | answer t sent =>
    simp only [step] at hs
    split at hs
    · rename_i m username ht
      split at hs
      · obtain rfl := Option.some.inj hs
        refine Function.update_of_ne ?_ _ _
        rintro rfl
        have hstands := h.stands t
        rw [ht] at hstands
        rw [hstands.2.1] at hauth
        cases hauth
      · exact Option.some.inj hs ▸ rfl
    · cases hs
  | receive t chunk =>
    simp only [step] at hs
    split at hs
    · split at hs
      · cases hs
      · obtain rfl := Option.some.inj hs
        unfold Frontend.receive
        split
        · rfl
        · split <;> rfl
    · cases hs
  | command t env chunk input =>
    simp only [step] at hs
    split at hs
    · obtain rfl := Option.some.inj hs
      unfold Frontend.command
      simp only
      split <;> rfl
    · cases hs
  | create t fault =>
    simp only [step] at hs
    split at hs
    · split at hs
      · exact Option.some.inj hs ▸ rfl
      · exact Option.some.inj hs ▸ rfl
    · cases hs
  | verify t fault | lookUp t prepared =>
    simp only [step] at hs
    split at hs
    · split at hs
      · exact Option.some.inj hs ▸ rfl
      · exact Option.some.inj hs ▸ rfl
    · cases hs
  | menu t sent =>
    simp only [step] at hs
    split at hs
    · split at hs
      · cases hs
      · split at hs
        · exact Option.some.inj hs ▸ rfl
        · exact Option.some.inj hs ▸ rfl
    · cases hs
  | hangUp t =>
    simp only [step] at hs
    split at hs
    · exact Option.some.inj hs ▸ rfl
    · cases hs
  | database op => exact Option.some.inj hs ▸ rfl

theorem sessions_run (h : s.Kept hashPassword) {acts : List (FrontAction ι)}
    (hr : run (step hashPassword) s acts = some s') {n : Nat} (hauth : (s.sessions n).isAuthenticated = true) :
    s'.sessions n = s.sessions n := by
  induction acts generalizing s with
  | nil => exact Option.some.inj hr ▸ rfl
  | cons a acts ih =>
    obtain ⟨u, hu, hrest⟩ := Option.bind_eq_some_iff.mp hr
    have hsame := sessions_step h hu hauth
    rw [ih (kept_step h hu) hrest (hsame ▸ hauth), hsame]

end Frontend

/-- Every task comes from a session that has signed up or logged in under the name that the task
carries, and the name of a session is final. -/
theorem tasks_are_authenticated {ι : Type*} [DecidableEq ι] (hashPassword : Bytes → Bytes) (t : Tables)
    (acts : List (FrontAction ι)) :
    Always (Frontend.step hashPassword) (Frontend.Authenticated hashPassword) (.start t) acts ∧
    ∀ before after, acts = before ++ after → ∀ s s',
      run (Frontend.step hashPassword) (.start t) before = some s →
      run (Frontend.step hashPassword) s after = some s' →
      ∀ n, (s.sessions n).isAuthenticated = true → (s'.sessions n).username = (s.sessions n).username := by
  have hkept : ∀ acts, Always (Frontend.step hashPassword) (Frontend.Kept hashPassword) (.start t : Frontend ι) acts :=
    fun acts => always_of_step (fun _ _ _ h hs => Frontend.kept_step h hs) acts (Frontend.kept_start t)
  refine ⟨(hkept acts).mono fun _ h => h.authenticated, ?_⟩
  intro before after _ s s' hs hs' n hauth
  rw [Frontend.sessions_run ((hkept before).last hs) hs' hauth]

end Stash.Threads
