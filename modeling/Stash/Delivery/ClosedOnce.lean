import Stash.Delivery.ServerProcess

/-! Every connection that the server accepts is closed once, by `main`, by its client thread or
with its session, and never by the descriptor of another one. -/
namespace Stash.Delivery
open Foundation.Descriptors Foundation.Fifos Foundation.LinearProbing Foundation.Runs Sessions Threads

/-- A slot that `session_create` has filled is one of the table. -/
theorem Heap.range_create {h : Heap} (hrange : ∀ i p, h.sessions i = some p → i < maxSessions) (fault : CreateFault)
    (socketFd : Int) (i p : Nat) (hi : (h.create fault socketFd).1.sessions i = some p) : i < maxSessions := by
  unfold create at hi
  split at hi
  · exact hrange i p hi
  · split at hi
    · exact hrange i p hi
    · simp only at hi
      split at hi
      · exact hrange i p hi
      · rename_i j hscan
        split at hi
        · exact hrange i p hi
        · split at hi
          · exact hrange i p hi
          · rcases sessions_store.mp hi with ⟨rfl, _⟩ | ⟨_, hold⟩
            · exact ((scan_eq_some (hashSessionId_lt _)).mp hscan).1
            · exact hrange i p hold

namespace Machine
variable {κ ω : Type*} {m m' : Machine κ ω}

/-- The sessions of the table and of the client threads stay what they are. -/
structure Steady (m m' : Machine κ ω) : Prop where
  sessions : m'.heap.sessions = m.heap.sessions
  sessionId : ∀ p, m'.heap.sessionId p = m.heap.sessionId p
  socketFd : ∀ p, (m'.heap.objects p).session.socketFd = (m.heap.objects p).session.socketFd
  ids : ∀ c, (m'.client c).ids = (m.client c).ids

theorem steady_modify (p : Nat) {f : SessionObject → SessionObject}
    (hid : ∀ o, (f o).session.sessionId = o.session.sessionId)
    (hfd : ∀ o, (f o).session.socketFd = o.session.socketFd) : Steady m (m.setHeap (m.heap.modify p f)) where
  sessions := rfl
  sessionId _ := Heap.sessionId_modify hid
  socketFd q := by
    by_cases hq : q = p
    · subst hq
      simp [setHeap, hfd]
    · simp [setHeap, hq]
  ids _ := rfl

variable [DecidableEq κ]

theorem Steady.move (h : Steady m m') (c : κ) (phase : ClientPhase) (hids : phase.ids = (m.client c).ids) :
    Steady m (m'.setClient c phase) where
  sessions := h.sessions
  sessionId := h.sessionId
  socketFd := h.socketFd
  ids c' := by
    by_cases hc : c' = c
    · subst hc
      rw [setClient_self, hids]
    · rw [setClient_of_ne m' hc]
      exact h.ids c'

variable [DecidableEq ω]

theorem steady_step {a : Action κ ω} (hplain : a.plain = true) (hstep : Moves m a m') : Steady m m' := by
  have still : Steady m m := ⟨rfl, fun _ => rfl, fun _ => rfl, fun _ => rfl⟩
  have worked : ∀ {m'' : Machine κ ω}, Steady m m'' → m'.heap = m''.heap → m'.client = m''.client → Steady m m' := by
    intro m'' h hheap hclient
    refine ⟨?_, fun p => ?_, fun p => ?_, fun c => ?_⟩
    · rw [hheap, h.sessions]
    · rw [hheap, h.sessionId]
    · rw [hheap, h.socketFd]
    · rw [hclient, h.ids]
  cases hstep with
  | connect hc => cases hplain
  | destroy hc => cases hplain
  | found hc hget => exact still.move _ _ (by rw [hc]; rfl)
  | unfound hc hget => exact still.move _ _ (by rw [hc]; rfl)
  | @reset c p id hc =>
    exact (steady_modify p (f := SessionObject.reset) (fun _ => rfl) fun _ => rfl).move _ _ (by rw [hc]; rfl)
  | @pushed c task p id queue job hc hcall =>
    have hmodified : Steady m (m.setHeap (m.heap.modify p fun o => o.push m.pushed)) :=
      steady_modify p (fun _ => rfl) fun _ => rfl
    exact worked (hmodified.move c (.waiting p id) (by rw [hc]; rfl)) rfl rfl
  | refused hc => exact still.move _ _ (by rw [hc]; rfl)
  | wake hc hready => exact still.move _ _ (by rw [hc]; rfl)
  | active hc => exact still.move _ _ (by rw [hc]; rfl)
  | inactive hc => exact still.move _ _ (by rw [hc]; rfl)
  | @send c ok p id hc =>
    cases ok with
    | true => exact worked (still.move c (.reading p id) (by rw [hc]; rfl)) rfl rfl
    | false => exact worked (still.move c (.leaving p id) (by rw [hc]; rfl)) rfl rfl
  | quit hc => exact still.move _ _ (by rw [hc]; rfl)
  | @markInactive c p id hc =>
    have hmarked : Steady m (m.setHeap (m.heap.markInactive id)) := by
      unfold Heap.markInactive
      split
      · exact steady_modify _ (fun _ => rfl) fun _ => rfl
      · exact still
    exact hmarked.move _ _ (by rw [hc]; rfl)
  | @set w response job p hw =>
    exact worked (steady_modify p (f := fun o => o.set job.serial response) (fun _ => rfl) fun _ => rfl) rfl rfl
  | @count w p hw =>
    exact worked (steady_modify p (f := SessionObject.increment) (fun _ => rfl) fun _ => rfl) rfl rfl
  | _ => exact worked still rfl rfl

end Machine

/-- Where a connection can be. -/
inductive EndPlace (κ : Type*) where
  | main
  | queued (i : Nat)
  | thread (c : κ)
  | session (p : Nat)

namespace ServerProcess
variable {κ ω : Type*}

def Carries (s : ServerProcess κ ω) : EndPlace κ → Connection → Prop
  | .main, conn => s.main.connection = some conn
  | .queued i, conn => s.clients.items[i]? = some conn
  | .thread c, conn => (s.hand c).connection = some conn
  | .session p, conn => (∃ i, s.machine.heap.sessions i = some p) ∧ s.endpoint p = conn

/-- Every connection is in one place or was closed once; what a client thread reads and writes by
`cfd` is its own connection; and when `main` returns every connection is closed. -/
structure ClosedOnce (s : ServerProcess κ ω) : Prop where
  sound : s.table.Sound s.Carries
  served : ∀ c conn, s.hand c = .serving conn → s.table.opened conn.fd = some conn.number
  ended : s.main = .returned → ∀ conn ∈ s.table.accepted, conn ∈ s.table.closed.map Prod.fst

/-- No client thread closes a connection that its session has. -/
def NoDrop (s : ServerProcess κ ω) : Event κ ω → Prop
  | .drop c => ∀ conn, s.hand c ≠ .serving conn
  | _ => True

/-- What holds in every run: a client thread that has a session id has a connection to serve. -/
structure Base (s : ServerProcess κ ω) : Prop where
  owned : s.machine.Owned
  numbered : s.machine.Numbered
  manned : ∀ c, (s.machine.client c).ids ≠ none → (∃ conn, s.hand c = .serving conn) ∨ s.hand c = .dropped

/-- What the steps keep when no session loses its descriptor. -/
structure Attended (s : ServerProcess κ ω) : Prop where
  sound : s.table.Sound s.Carries
  endpoints : ∀ i p, s.machine.heap.sessions i = some p →
    (s.machine.heap.objects p).session.socketFd = (s.endpoint p).fd
  serving : ∀ c conn, s.hand c = .serving conn → ∃ id, (s.machine.client c).ids = some id ∧
    ∀ i p, s.machine.heap.sessions i = some p → s.machine.heap.sessionId p = id → s.endpoint p = conn
  undropped : ∀ c, s.hand c ≠ .dropped
  exited : ∀ c, s.hand c = .exited → s.clients.shutdown = true ∧ s.clients.items = []
  range : ∀ i p, s.machine.heap.sessions i = some p → i < maxSessions
  returned : s.main = .returned → (∀ c, s.hand c = .exited) ∧ ∀ i, s.machine.heap.sessions i = none

variable {s s' : ServerProcess κ ω}

theorem base_start (capacity taskCapacity : Nat) : Base (start capacity taskCapacity : ServerProcess κ ω) where
  owned := Machine.owned_start taskCapacity
  numbered := Machine.numbered_start taskCapacity
  manned _ h := absurd rfl h

theorem attended_start (capacity taskCapacity : Nat) : Attended (start capacity taskCapacity : ServerProcess κ ω) where
  sound := by
    refine Table.sound_empty fun place conn => ?_
    cases place <;> simp [Carries, start, Machine.start, MainPhase.connection, Hand.connection]
  endpoints := by simp [start, Machine.start]
  serving := by simp [start]
  undropped := by simp [start]
  exited := by simp [start]
  range := by simp [start, Machine.start]
  returned := by simp [start]

/-- The session of a client thread has its connection. -/
theorem Attended.session (h : Attended s) (hb : Base s) {c : κ} {conn : Connection} (hc : s.hand c = .serving conn) :
    ∃ p, s.Carries (.session p) conn := by
  obtain ⟨id, hid, hown⟩ := h.serving c conn hc
  obtain ⟨_, i, p, hi, hp⟩ := hb.owned.entry c id hid
  exact ⟨p, ⟨i, hi⟩, hown i p hi hp⟩

theorem Attended.closedOnce [Nonempty κ] (h : Attended s) (hb : Base s) : ClosedOnce s where
  sound := h.sound
  served c conn hc := by
    obtain ⟨p, hp⟩ := h.session hb hc
    exact (h.sound.live _ conn hp).2
  ended hmain conn hconn := by
    obtain ⟨hexited, hnone⟩ := h.returned hmain
    obtain ⟨c⟩ := ‹Nonempty κ›
    obtain ⟨place, hplace⟩ := h.sound.kept.somewhere conn hconn
    rcases place with _ | (_ | i | c' | p)
    · exact hplace
    · change s.main.connection = some conn at hplace
      rw [hmain] at hplace
      cases hplace
    · change s.clients.items[i]? = some conn at hplace
      rw [(h.exited c (hexited c)).2] at hplace
      cases hplace
    · change (s.hand c').connection = some conn at hplace
      rw [hexited c'] at hplace
      cases hplace
    · obtain ⟨⟨i, hi⟩, _⟩ := hplace
      rw [hnone i] at hi
      cases hi

/-- Nothing changes hands. -/
theorem carries_same (hmain : s'.main.connection = s.main.connection) (hitems : s'.clients.items = s.clients.items)
    (hhand : ∀ c, (s'.hand c).connection = (s.hand c).connection)
    (hsessions : s'.machine.heap.sessions = s.machine.heap.sessions)
    (hendpoint : ∀ i p, s.machine.heap.sessions i = some p → s'.endpoint p = s.endpoint p) (place : EndPlace κ)
    (conn : Connection) : s'.Carries place conn ↔ s.Carries place conn := by
  cases place with
  | main => simp only [Carries, hmain]
  | queued i => simp only [Carries, hitems]
  | thread c => simp only [Carries, hhand]
  | session p =>
    simp only [Carries, hsessions]
    constructor
    · rintro ⟨⟨i, hi⟩, hp⟩
      exact ⟨⟨i, hi⟩, (hendpoint i p hi).symm.trans hp⟩
    · rintro ⟨⟨i, hi⟩, hp⟩
      exact ⟨⟨i, hi⟩, (hendpoint i p hi).trans hp⟩

/-- A session of the table goes, and its descriptor is closed. -/
theorem Attended.closeSession (h : Attended s) (ho : s.machine.Owned) {i p : Nat}
    (hi : s.machine.heap.sessions i = some p) (hmain : s'.main.connection = s.main.connection)
    (hitems : s'.clients.items = s.clients.items) (hhand : ∀ c, (s'.hand c).connection = (s.hand c).connection)
    (hsessions : s'.machine.heap.sessions = Function.update s.machine.heap.sessions i none)
    (hendpoint : s'.endpoint = s.endpoint) : (s.closeSession p).Sound s'.Carries := by
  have hsource : s.Carries (.session p) (s.endpoint p) := ⟨⟨i, hi⟩, rfl⟩
  have hsession : ∀ j q, s'.machine.heap.sessions j = some q ↔ j ≠ i ∧ s.machine.heap.sessions j = some q := by
    intro j q
    rw [hsessions]
    exact Heap.sessions_remove (h := s.machine.heap) (i := i) (p := p)
  have hclose : s.closeSession p = s.table.close (s.endpoint p) (s.endpoint p).fd := by
    rw [ServerProcess.closeSession, h.endpoints i p hi, if_pos (h.sound.live _ _ hsource).1]
  rw [hclose]
  refine h.sound.close (.session p) hsource ?_ (fun place conn hplace => ?_)
    fun conn (hconn : s.Carries (.session p) conn) => hconn.2.symm
  · rintro conn ⟨⟨j, hj⟩, _⟩
    obtain ⟨hne, hold⟩ := (hsession j p).mp hj
    exact hne (ho.slots j i p hold hi)
  · cases place with
    | main => simp only [Carries, hmain]
    | queued j => simp only [Carries, hitems]
    | thread c => simp only [Carries, hhand]
    | session q =>
      have hq : q ≠ p := by
        rintro rfl
        exact hplace rfl
      simp only [Carries, hendpoint, hsession]
      refine and_congr_left fun _ => exists_congr fun j => and_iff_right_of_imp ?_
      rintro hj rfl
      exact hq (Option.some.inj (hj.symm.trans hi))

/-- A step of the machine that is not tied to a descriptor. -/
theorem Attended.act (h : Attended s) {m : Machine κ ω} (hsteady : s.machine.Steady m) {main : MainPhase}
    (hmain : main.connection = s.main.connection) (hreturned : main = .returned → s.main = .returned) :
    Attended { s with machine := m, main := main } where
  sound := h.sound.congr (carries_same hmain rfl (fun _ => rfl) hsteady.sessions fun _ _ _ => rfl)
  endpoints i p hi := by
    rw [hsteady.sessions] at hi
    exact (hsteady.socketFd p).trans (h.endpoints i p hi)
  serving c conn hc := by
    obtain ⟨id, hid, hown⟩ := h.serving c conn hc
    refine ⟨id, (hsteady.ids c).trans hid, fun i p hi hp => ?_⟩
    rw [hsteady.sessions] at hi
    rw [hsteady.sessionId] at hp
    exact hown i p hi hp
  undropped := h.undropped
  exited := h.exited
  range i p hi := by
    rw [hsteady.sessions] at hi
    exact h.range i p hi
  returned hm := by
    obtain ⟨hexited, hnone⟩ := h.returned (hreturned hm)
    refine ⟨hexited, fun i => ?_⟩
    rw [hsteady.sessions]
    exact hnone i

/-- `main`, the client queue or the table of descriptors changes; the threads and sessions do not. -/
theorem Attended.front (h : Attended s) {main : MainPhase} {clients : Fifo Connection} {table : Table}
    (hsound : table.Sound ({ s with main := main, clients := clients, table := table } : ServerProcess κ ω).Carries)
    (hexited : ∀ c, s.hand c = .exited → clients.shutdown = true ∧ clients.items = [])
    (hreturned : main = .returned → s.main = .returned) :
    Attended { s with main := main, clients := clients, table := table } where
  sound := hsound
  endpoints := h.endpoints
  serving := h.serving
  undropped := h.undropped
  exited := hexited
  range := h.range
  returned hm := h.returned (hreturned hm)

section
variable [DecidableEq κ]

@[simp] theorem setHand_self (s : ServerProcess κ ω) (c : κ) (hand : Hand) : (s.setHand c hand).hand c = hand := by
  simp [setHand]

theorem setHand_of_ne (s : ServerProcess κ ω) {c c' : κ} (hc : c' ≠ c) (hand : Hand) :
    (s.setHand c hand).hand c' = s.hand c' := by
  simp [setHand, hc]

/-- The place that a connection had before the first one of the queue went to the client thread. -/
def beforeTake (c : κ) : EndPlace κ → EndPlace κ
  | .main => .main
  | .queued i => .queued (i + 1)
  | .thread c' => if c' = c then .queued 0 else .thread c'
  | .session p => .session p

/-- The place that it has behind that. -/
def afterTake (c : κ) : EndPlace κ → EndPlace κ
  | .queued 0 => .thread c
  | .queued (i + 1) => .queued i
  | .main => .main
  | .thread c' => .thread c'
  | .session p => .session p

theorem afterTake_beforeTake (c : κ) : Function.LeftInverse (afterTake c) (beforeTake c) := by
  rintro (_ | i | c' | p)
  · rfl
  · rfl
  · by_cases hc : c' = c
    · simp [beforeTake, afterTake, hc]
    · simp [beforeTake, afterTake, hc]
  · rfl

/-- The connection that is popped goes from the head of the queue to the client thread. -/
theorem Attended.popped (h : Attended s) {c : κ} {conn : Connection} {clients : Fifo Connection}
    (hhand : s.hand c = .empty) (hitems : s.clients.items = conn :: clients.items) :
    Attended ({ s with clients := clients }.setHand c (.popped conn)) where
  sound := by
    refine h.sound.rename (afterTake_beforeTake c).injective (fun place other hplace => ?_) fun place other hplace => ?_
    · refine ⟨afterTake c place, ?_⟩
      rcases place with _ | (_ | i) | c' | p
      · exact hplace
      · change s.clients.items[0]? = some other at hplace
        rw [hitems] at hplace
        obtain rfl := Option.some.inj hplace
        change ((setHand _ c (.popped conn)).hand c).connection = some conn
        rw [setHand_self]
        rfl
      · change s.clients.items[i + 1]? = some other at hplace
        rw [hitems] at hplace
        exact hplace
      · have hc : c' ≠ c := by
          rintro rfl
          change (s.hand c').connection = some other at hplace
          rw [hhand] at hplace
          cases hplace
        change ((setHand _ c (.popped conn)).hand c').connection = some other
        rw [setHand_of_ne _ hc]
        exact hplace
      · exact hplace
    · rcases place with _ | i | c' | p
      · exact hplace
      · change s.clients.items[i + 1]? = some other
        rw [hitems]
        exact hplace
      · change ((setHand _ c (.popped conn)).hand c').connection = some other at hplace
        by_cases hc : c' = c
        · subst hc
          rw [setHand_self] at hplace
          obtain rfl := Option.some.inj hplace
          rw [beforeTake, if_pos rfl]
          change s.clients.items[0]? = some conn
          rw [hitems]
          rfl
        · rw [setHand_of_ne _ hc] at hplace
          rw [beforeTake, if_neg hc]
          exact hplace
      · exact hplace
  endpoints := h.endpoints
  serving c' other hc' := by
    by_cases hc : c' = c
    · subst hc
      rw [setHand_self] at hc'
      cases hc'
    · rw [setHand_of_ne _ hc] at hc'
      exact h.serving c' other hc'
  undropped c' := by
    by_cases hc : c' = c
    · subst hc
      simp
    · rw [setHand_of_ne _ hc]
      exact h.undropped c'
  exited c' hc' := by
    by_cases hc : c' = c
    · subst hc
      rw [setHand_self] at hc'
      cases hc'
    · rw [setHand_of_ne _ hc] at hc'
      have hempty := (h.exited c' hc').2
      rw [hitems] at hempty
      cases hempty
  range := h.range
  returned hm := by
    have hexited := (h.returned hm).1 c
    rw [hhand] at hexited
    cases hexited

/-- A client thread puts down what it has, or ends. -/
theorem Attended.putDown (h : Attended s) {c : κ} {hand : Hand} {table : Table}
    (hserving : ∀ conn, hand ≠ .serving conn) (hdropped : hand ≠ .dropped)
    (hexited : hand = .exited → s.clients.shutdown = true ∧ s.clients.items = []) (hmain : s.hand c ≠ .exited)
    (hsound : table.Sound ({ s with table := table }.setHand c hand).Carries) :
    Attended ({ s with table := table }.setHand c hand) where
  sound := hsound
  endpoints := h.endpoints
  serving c' other hc' := by
    by_cases hc : c' = c
    · subst hc
      rw [setHand_self] at hc'
      exact absurd hc' (hserving other)
    · rw [setHand_of_ne _ hc] at hc'
      exact h.serving c' other hc'
  undropped c' := by
    by_cases hc : c' = c
    · subst hc
      rwa [setHand_self]
    · rw [setHand_of_ne _ hc]
      exact h.undropped c'
  exited c' hc' := by
    by_cases hc : c' = c
    · subst hc
      rw [setHand_self] at hc'
      exact hexited hc'
    · rw [setHand_of_ne _ hc] at hc'
      exact h.exited c' hc'
  range := h.range
  returned hm := absurd ((h.returned hm).1 c) hmain

/-- A client thread that could not create a session closes the connection. -/
theorem Attended.dropFailed (h : Attended s) {c : κ} {conn : Connection} (hhand : s.hand c = .failed conn) :
    Attended ({ s with table := s.table.close conn conn.fd }.setHand c .empty) := by
  have hthread : ∀ other, s.Carries (.thread c) other ↔ conn = other := by
    intro other
    simp only [Carries, hhand, Hand.connection, Option.some.injEq]
  refine h.putDown (by simp) (by simp) (by simp) (by simp [hhand]) ?_
  refine h.sound.close (.thread c) ((hthread conn).mpr rfl) (fun other => ?_) (fun place other hplace => ?_)
    fun other hother => ((hthread other).mp hother).symm
  · change ¬ ((setHand _ c .empty).hand c).connection = some other
    rw [setHand_self]
    exact Option.some_ne_none other ∘ Eq.symm
  · cases place with
    | thread c' =>
      have hc : c' ≠ c := by
        rintro rfl
        exact hplace rfl
      change ((setHand _ c .empty).hand c').connection = some other ↔ _
      rw [setHand_of_ne _ hc]
      exact Iff.rfl
    | _ => exact Iff.rfl

theorem Attended.ended (h : Attended s) {c : κ} (hhand : s.hand c = .empty)
    (hempty : s.clients.shutdown = true ∧ s.clients.items = []) : Attended (s.setHand c .exited) := by
  refine h.putDown (by simp) (by simp) (fun _ => hempty) (by simp [hhand]) ?_
  refine h.sound.congr (carries_same rfl rfl (fun c' => ?_) rfl fun _ _ _ => rfl)
  by_cases hc : c' = c
  · subst hc
    rw [setHand_self, hhand]
    rfl
  · rw [setHand_of_ne _ hc]

/-- `session_create` has failed. -/
theorem Attended.connectFailed (h : Attended s) (hb : Base s) {c : κ} {conn : Connection} {m : Machine κ ω}
    (hhand : s.hand c = .popped conn) (hsteady : s.machine.Steady m) :
    Attended { s with
      machine := m
      endpoint := Function.update s.endpoint s.machine.heap.allocated conn
      hand := Function.update s.hand c (.failed conn) } where
  sound := by
    refine h.sound.congr (carries_same rfl rfl (fun c' => ?_) hsteady.sessions fun i p hi => ?_)
    · by_cases hc : c' = c
      · subst hc
        simp [hhand, Hand.connection]
      · simp [hc]
    · exact Function.update_of_ne (hb.owned.below_ne hi) _ _
  endpoints i p hi := by
    rw [hsteady.sessions] at hi
    rw [hsteady.socketFd, h.endpoints i p hi]
    exact congrArg Connection.fd (Function.update_of_ne (hb.owned.below_ne hi) _ _).symm
  serving c' other hc' := by
    by_cases hc : c' = c
    · subst hc
      simp at hc'
    · obtain ⟨id, hid, hown⟩ := h.serving c' other (by simpa [hc] using hc')
      refine ⟨id, (hsteady.ids c').trans hid, fun i p hi hp => ?_⟩
      rw [hsteady.sessions] at hi
      rw [hsteady.sessionId] at hp
      exact (Function.update_of_ne (hb.owned.below_ne hi) _ _).trans (hown i p hi hp)
  undropped c' := by
    by_cases hc : c' = c
    · subst hc
      simp
    · simpa [hc] using h.undropped c'
  exited c' hc' := by
    by_cases hc : c' = c
    · subst hc
      simp at hc'
    · exact h.exited c' (by simpa [hc] using hc')
  range i p hi := by
    rw [hsteady.sessions] at hi
    exact h.range i p hi
  returned hm := by
    have hexited := (h.returned hm).1 c
    rw [hhand] at hexited
    cases hexited

/-- The connection goes into the session that is created. -/
theorem Attended.connectStored (h : Attended s) (hb : Base s) {c : κ} {conn : Connection} {i : Nat} {heap : Heap}
    (hhand : s.hand c = .popped conn) (hfree : s.machine.heap.sessions i = none) (hi : i < maxSessions)
    (hheap : heap = (s.machine.heap.setNext (s.machine.heap.nextSessionId + 1)).store i
      (newObject s.machine.heap.nextSessionId conn.fd)) :
    Attended { s with
      machine := (s.machine.setHeap heap).setClient c (.created s.machine.heap.nextSessionId)
      endpoint := Function.update s.endpoint s.machine.heap.allocated conn
      hand := Function.update s.hand c (.serving conn) } := by
  have hsessions : ∀ j p, heap.sessions j = some p ↔
      (j = i ∧ p = s.machine.heap.allocated) ∨ (j ≠ i ∧ s.machine.heap.sessions j = some p) := by
    intro j p
    rw [hheap]
    exact Heap.sessions_store
  have hobject : ∀ {j p}, s.machine.heap.sessions j = some p → heap.objects p = s.machine.heap.objects p := by
    intro j p hj
    rw [hheap]
    exact Heap.objects_store (hb.owned.below_ne hj)
  have hendpoint : ∀ {j p}, s.machine.heap.sessions j = some p →
      Function.update s.endpoint s.machine.heap.allocated conn p = s.endpoint p :=
    fun hj => Function.update_of_ne (hb.owned.below_ne hj) _ _
  have hself : Function.update s.endpoint s.machine.heap.allocated conn s.machine.heap.allocated = conn :=
    Function.update_self ..
  have hnew : heap.objects s.machine.heap.allocated = newObject s.machine.heap.nextSessionId conn.fd := by
    rw [hheap]
    exact Function.update_self ..
  have hids : ∀ {j p}, s.machine.heap.sessions j = some p → s.machine.heap.sessionId p ≠ s.machine.heap.nextSessionId := by
    intro j p hj heq
    have hlt := hb.numbered.below j p hj
    rw [heq] at hlt
    exact Nat.lt_irrefl _ hlt
  have hkeptId : ∀ {j p}, s.machine.heap.sessions j = some p → heap.sessionId p = s.machine.heap.sessionId p :=
    fun hj => congrArg (fun o => o.session.sessionId) (hobject hj)
  refine ⟨?_, fun j p hj => ?_, fun c' other hc' => ?_, fun c' => ?_, fun c' hc' => ?_, fun j p hj => ?_, fun hm => ?_⟩
  · refine h.sound.move (.thread c) (.session s.machine.heap.allocated) conn ?_ ?_ ?_ ?_ ?_
    · simp [Carries, hhand, Hand.connection]
    · simp [Carries, Hand.connection]
    · intro other
      simp only [Carries, Function.update_self, Machine.setClient, Machine.setHeap]
      constructor
      · rintro ⟨_, rfl⟩
        exact .inl rfl
      · rintro (rfl | ⟨⟨j, hj⟩, _⟩)
        · exact ⟨⟨i, (hsessions i _).mpr (.inl ⟨rfl, rfl⟩)⟩, rfl⟩
        · exact absurd rfl (hb.owned.below_ne hj)
    · intro place other hsource htarget
      cases place with
      | main => exact Iff.rfl
      | queued j => exact Iff.rfl
      | thread c' =>
        have hc : c' ≠ c := by
          rintro rfl
          exact hsource rfl
        simp [Carries, hc]
      | session p =>
        have hp : p ≠ s.machine.heap.allocated := by
          rintro rfl
          exact htarget rfl
        simp only [Carries, Machine.setClient, Machine.setHeap, hsessions, Function.update_of_ne hp]
        refine and_congr_left fun _ => exists_congr fun j => ?_
        constructor
        · rintro (⟨_, hnew⟩ | ⟨_, hold⟩)
          · exact absurd hnew hp
          · exact hold
        · intro hold
          refine .inr ⟨?_, hold⟩
          rintro rfl
          rw [hfree] at hold
          cases hold
    · intro other hother
      simpa [Carries, hhand, Hand.connection] using hother.symm
  · change (heap.objects p).session.socketFd = _
    rcases (hsessions j p).mp hj with ⟨_, rfl⟩ | ⟨_, hold⟩
    · rw [hnew]
      exact congrArg Connection.fd hself.symm
    · rw [hobject hold, h.endpoints j p hold]
      exact congrArg Connection.fd (hendpoint hold).symm
  · by_cases hc : c' = c
    · subst hc
      obtain rfl : conn = other := by simpa using hc'
      refine ⟨s.machine.heap.nextSessionId, by rw [Machine.setClient_self]; rfl, fun j p hj hp => ?_⟩
      rcases (hsessions j p).mp hj with ⟨_, rfl⟩ | ⟨_, hold⟩
      · exact hself
      · exact absurd ((hkeptId hold).symm.trans hp) (hids hold)
    · obtain ⟨id, hid, hown⟩ := h.serving c' other (by simpa [hc] using hc')
      refine ⟨id, by rw [Machine.setClient_of_ne _ hc]; exact hid, fun j p hj hp => ?_⟩
      rcases (hsessions j p).mp hj with ⟨_, rfl⟩ | ⟨_, hold⟩
      · -- The id of the new session would be one that is in the table.
        have hsame : s.machine.heap.nextSessionId = id := (congrArg (fun o => o.session.sessionId) hnew).symm.trans hp
        obtain ⟨_, k, q, hk, hq⟩ := hb.owned.entry c' id hid
        exact absurd (hq.trans hsame.symm) (hids hk)
      · exact (hendpoint hold).trans (hown j p hold ((hkeptId hold).symm.trans hp))
  · by_cases hc : c' = c
    · subst hc
      simp
    · simpa [hc] using h.undropped c'
  · by_cases hc : c' = c
    · subst hc
      simp at hc'
    · exact h.exited c' (by simpa [hc] using hc')
  · rcases (hsessions j p).mp hj with ⟨rfl, _⟩ | ⟨_, hold⟩
    · exact hi
    · exact h.range j p hold
  · have hexited := (h.returned hm).1 c
    rw [hhand] at hexited
    cases hexited

/-- `session_destroy` closes the descriptor of the session that it finds. -/
theorem Attended.destroy (h : Attended s) (hb : Base s) {c : κ} {conn : Connection} (id : UInt64)
    (hhand : s.hand c = .serving conn) :
    Attended { s with
      machine := (s.machine.setHeap (s.machine.heap.destroy id)).setClient c .idle
      hand := Function.update s.hand c .empty
      table := s.sessionDestroy id } := by
  have hconnection : ∀ c', (Function.update s.hand c .empty c').connection = (s.hand c').connection := by
    intro c'
    by_cases hc : c' = c
    · subst hc
      simp [hhand, Hand.connection]
    · simp [hc]
  have hsessions : ∀ j p, (s.machine.heap.destroy id).sessions j = some p → s.machine.heap.sessions j = some p := by
    intro j p hj
    unfold Heap.destroy at hj
    split at hj
    · exact (Heap.sessions_remove.mp hj).2
    · exact hj
  have hids : ∀ p, (s.machine.heap.destroy id).sessionId p = s.machine.heap.sessionId p := by
    intro p
    unfold Heap.destroy
    split
    · exact Heap.sessionId_remove
    · rfl
  have hfds : ∀ p, ((s.machine.heap.destroy id).objects p).session.socketFd = (s.machine.heap.objects p).session.socketFd := by
    intro p
    unfold Heap.destroy
    split
    · rename_i i q _
      by_cases hq : p = q
      · subst hq
        simp [SessionObject.free, SessionObject.markInactive, Session.markInactive]
      · simp [hq]
    · rfl
  refine ⟨?_, fun j p hj => ?_, fun c' other hc' => ?_, fun c' => ?_, fun c' hc' => ?_, fun j p hj => ?_, fun hm => ?_⟩
  · cases hfind : s.machine.heap.find id with
    | none =>
      have hheap : s.machine.heap.destroy id = s.machine.heap := by simp [Heap.destroy, hfind]
      have htable : s.sessionDestroy id = s.table := by simp [sessionDestroy, hfind]
      rw [htable]
      exact h.sound.congr (carries_same rfl rfl hconnection (congrArg Heap.sessions hheap) fun _ _ _ => rfl)
    | some found =>
      obtain ⟨i, p⟩ := found
      have hheap : s.machine.heap.destroy id = s.machine.heap.remove i p := by simp [Heap.destroy, hfind]
      have htable : s.sessionDestroy id = s.closeSession p := by simp [sessionDestroy, hfind]
      rw [htable]
      exact h.closeSession hb.owned (Heap.find_some hfind).1 rfl rfl hconnection (congrArg Heap.sessions hheap) rfl
  · exact (hfds p).trans (h.endpoints j p (hsessions j p hj))
  · by_cases hc : c' = c
    · subst hc
      simp at hc'
    · obtain ⟨id', hid, hown⟩ := h.serving c' other (by simpa [hc] using hc')
      refine ⟨id', by rw [Machine.setClient_of_ne _ hc]; exact hid, fun j p hj hp => ?_⟩
      exact hown j p (hsessions j p hj) ((hids p).symm.trans hp)
  · by_cases hc : c' = c
    · subst hc
      simp
    · simpa [hc] using h.undropped c'
  · by_cases hc : c' = c
    · subst hc
      simp at hc'
    · exact h.exited c' (by simpa [hc] using hc')
  · exact h.range j p (hsessions j p hj)
  · have hexited := (h.returned hm).1 c
    rw [hhand] at hexited
    cases hexited

end

theorem destroySlot_some {i p : Nat} (hi : s.machine.heap.sessions i = some p) :
    s.destroySlot i = { s with
      machine := s.machine.setHeap (s.machine.heap.remove i p)
      table := s.closeSession p } := by
  rw [destroySlot, hi]

theorem destroySlot_none {i : Nat} (hi : s.machine.heap.sessions i = none) : s.destroySlot i = s := by
  rw [destroySlot, hi]

/-- All client threads have ended. -/
structure Quiet (s : ServerProcess κ ω) : Prop where
  base : Base s
  exited : ∀ c, s.hand c = .exited

theorem Quiet.ids (h : Quiet s) (c : κ) : (s.machine.client c).ids = none := by
  by_contra hids
  rcases h.base.manned c hids with ⟨conn, hc⟩ | hc
  · rw [h.exited c] at hc
    cases hc
  · rw [h.exited c] at hc
    cases hc

theorem Quiet.destroySlot (h : Quiet s) (i : Nat) : Quiet (s.destroySlot i) ∧
    (s.destroySlot i).machine.heap.nextSessionId = s.machine.heap.nextSessionId := by
  cases hi : s.machine.heap.sessions i with
  | none =>
    rw [destroySlot_none hi]
    exact ⟨h, rfl⟩
  | some p =>
    have hnone : ∀ c, (s.machine.client c).ids ≠ some (s.machine.heap.sessionId p) := by
      intro c
      rw [h.ids c]
      exact Option.some_ne_none _ ∘ Eq.symm
    rw [destroySlot_some hi]
    refine ⟨⟨⟨h.base.owned.remove hi hnone, ?_, h.base.manned⟩, h.exited⟩, rfl⟩
    exact h.base.numbered.frame rfl (fun j q hj => (Heap.sessions_remove.mp hj).2) fun _ => Heap.sessionId_remove

theorem Quiet.managerDestroy (h : Quiet s) : Quiet s.sessionManagerDestroy ∧
    s.sessionManagerDestroy.machine.heap.nextSessionId = s.machine.heap.nextSessionId := by
  unfold sessionManagerDestroy
  generalize List.range maxSessions = slots
  induction slots generalizing s with
  | nil => exact ⟨h, rfl⟩
  | cons i slots ih =>
    obtain ⟨hfirst, hnext⟩ := h.destroySlot i
    obtain ⟨hlast, hnext'⟩ := ih hfirst
    exact ⟨hlast, hnext'.trans hnext⟩

/-- What `session_manager_destroy` keeps while it goes over the slots. -/
structure Joined (s : ServerProcess κ ω) : Prop extends Quiet s where
  attended : Attended s
  joining : s.main = .joining

theorem Joined.destroySlot (h : Joined s) (i : Nat) :
    Joined (s.destroySlot i) ∧ ∀ j p, (s.destroySlot i).machine.heap.sessions j = some p →
      j ≠ i ∧ s.machine.heap.sessions j = some p := by
  have hquiet := (h.toQuiet.destroySlot i).1
  cases hi : s.machine.heap.sessions i with
  | none =>
    rw [destroySlot_none hi]
    refine ⟨h, fun j p hj => ⟨?_, hj⟩⟩
    rintro rfl
    rw [hi] at hj
    cases hj
  | some p =>
    rw [destroySlot_some hi] at hquiet ⊢
    have hremoved : ∀ j q, (s.machine.heap.remove i p).sessions j = some q → j ≠ i ∧ s.machine.heap.sessions j = some q :=
      fun j q hj => Heap.sessions_remove.mp hj
    refine ⟨⟨hquiet, ?_, h.joining⟩, hremoved⟩
    refine ⟨h.attended.closeSession h.base.owned hi rfl rfl (fun _ => rfl) rfl rfl, fun j q hj => ?_,
      fun c conn hc => ?_, h.attended.undropped, h.attended.exited, fun j q hj => h.attended.range j q (hremoved j q hj).2,
      fun hm => by simp [h.joining] at hm⟩
    · have hne : q ≠ p := by
        rintro rfl
        exact (hremoved j q hj).1 (h.base.owned.slots j i q (hremoved j q hj).2 hi)
      have hsame : (s.machine.heap.remove i p).objects q = s.machine.heap.objects q := Function.update_of_ne hne _ _
      change ((s.machine.heap.remove i p).objects q).session.socketFd = _
      rw [hsame]
      exact h.attended.endpoints j q (hremoved j q hj).2
    · rw [h.exited c] at hc
      cases hc

/-- Over some slots these are emptied, and no slot is filled. -/
theorem Joined.destroySlots (h : Joined s) (slots : List Nat) :
    Joined (slots.foldl ServerProcess.destroySlot s) ∧
      ∀ j p, (slots.foldl ServerProcess.destroySlot s).machine.heap.sessions j = some p →
        j ∉ slots ∧ s.machine.heap.sessions j = some p := by
  induction slots generalizing s with
  | nil => exact ⟨h, fun j p hj => ⟨List.not_mem_nil, hj⟩⟩
  | cons i slots ih =>
    obtain ⟨hjoined, hslot⟩ := h.destroySlot i
    obtain ⟨hlast, hslots⟩ := ih hjoined
    refine ⟨hlast, fun j p hj => ?_⟩
    obtain ⟨hnot, hold⟩ := hslots j p hj
    obtain ⟨hne, hfirst⟩ := hslot j p hold
    exact ⟨fun hmem => (List.mem_cons.mp hmem).elim hne hnot, hfirst⟩

theorem Joined.managerDestroy (h : Joined s) :
    Joined s.sessionManagerDestroy ∧ ∀ i, s.sessionManagerDestroy.machine.heap.sessions i = none := by
  have hall : ∀ i < maxSessions, i ∈ List.range maxSessions := fun _ hi => List.mem_range.mpr hi
  unfold sessionManagerDestroy
  generalize List.range maxSessions = slots at hall ⊢
  obtain ⟨hjoined, hslots⟩ := h.destroySlots slots
  refine ⟨hjoined, fun i => ?_⟩
  cases hi : (slots.foldl ServerProcess.destroySlot s).machine.heap.sessions i with
  | none => rfl
  | some p =>
    obtain ⟨hnot, hold⟩ := hslots i p hi
    exact absurd (hall i (h.attended.range i p hold)) hnot

theorem Base.same (h : Base s) (hs' : s'.machine = s.machine ∧ s'.hand = s.hand) : Base s' := by
  obtain ⟨hmachine, hhand⟩ := hs'
  refine ⟨hmachine ▸ h.owned, hmachine ▸ h.numbered, ?_⟩
  rw [hmachine, hhand]
  exact h.manned

section
variable [DecidableEq κ]

/-- A client thread without a session id takes something else in hand. -/
theorem Base.hold (h : Base s) {c : κ} {hand : Hand} (hbefore : ∀ conn, s.hand c ≠ .serving conn)
    (hdropped : s.hand c ≠ .dropped) (hs' : s'.machine = s.machine ∧ s'.hand = Function.update s.hand c hand) : Base s' := by
  obtain ⟨hmachine, hhand⟩ := hs'
  refine ⟨hmachine ▸ h.owned, hmachine ▸ h.numbered, fun c' hids => ?_⟩
  rw [hmachine] at hids
  rw [hhand]
  by_cases hc : c' = c
  · subst hc
    rcases h.manned c' hids with ⟨conn, hconn⟩ | hold
    · exact absurd hconn (hbefore conn)
    · exact absurd hold hdropped
  · simpa [hc] using h.manned c' hids

variable [DecidableEq ω]

/-- A step of the machine, with what the client threads have in hand behind it. -/
theorem Base.act (h : Base s) {a : Action κ ω} (hlt : s.machine.heap.nextSessionId.toNat < 2 ^ 64 - 1)
    (hmachine : s.machine.step a = some s'.machine)
    (hmanned : ∀ c, (s'.machine.client c).ids ≠ none → (∃ conn, s'.hand c = .serving conn) ∨ s'.hand c = .dropped) :
    Base s' ∧ s'.machine.heap.nextSessionId.toNat ≤ s.machine.heap.nextSessionId.toNat + 1 := by
  have hmoves := Machine.step_moves hmachine
  obtain ⟨hnumbered, hcost⟩ := Machine.numbered_step h.numbered h.owned hlt hmoves
  exact ⟨⟨Machine.owned_step h.owned (h.numbered.fresh a).1 hmoves, hnumbered, hmanned⟩, hcost⟩

/-- Every step keeps what holds in every run, and takes one session id at most. -/
theorem base_step {e : Event κ ω} (h : Base s) (hlt : s.machine.heap.nextSessionId.toNat < 2 ^ 64 - 1)
    (hstep : Moves s e s') : Base s' ∧ s'.machine.heap.nextSessionId.toNat ≤ s.machine.heap.nextSessionId.toNat + 1 := by
  cases hstep with
  | popped hhand hcall => exact ⟨h.hold (by simp [hhand]) (by simp [hhand]) ⟨rfl, rfl⟩, Nat.le_succ _⟩
  | ended hhand hcall => exact ⟨h.hold (by simp [hhand]) (by simp [hhand]) ⟨rfl, rfl⟩, Nat.le_succ _⟩
  | dropFailed hhand => exact ⟨h.hold (by simp [hhand]) (by simp [hhand]) ⟨rfl, rfl⟩, Nat.le_succ _⟩
  | @dropUnfound c conn id hhand hclient =>
    refine ⟨⟨h.owned, h.numbered, fun c' hids => ?_⟩, Nat.le_succ _⟩
    by_cases hc : c' = c
    · subst hc
      exact .inr (setHand_self _ _ _)
    · rw [setHand_of_ne _ hc]
      exact h.manned c' hids
  | @connect c fault conn m hhand hmachine =>
    refine h.act hlt hmachine fun c' hids => ?_
    cases Machine.step_moves hmachine with
    | connect hidle =>
      by_cases hc : c' = c
      · subst hc
        change ((Machine.setClient _ c' _).client c').ids ≠ none at hids
        rw [Machine.setClient_self] at hids
        refine .inl ⟨conn, ?_⟩
        simp only [ServerProcess.connect, Function.update_self]
        split
        · rename_i hz
          rw [if_pos hz] at hids
          exact absurd rfl hids
        · rfl
      · change ((Machine.setClient _ c _).client c').ids ≠ none at hids
        rw [Machine.setClient_of_ne _ hc] at hids
        simpa [ServerProcess.connect, hc] using h.manned c' hids
  | @destroy c id m hhand hmachine =>
    refine h.act hlt hmachine fun c' hids => ?_
    cases Machine.step_moves hmachine with
    | destroy _ =>
      by_cases hc : c' = c
      · subst hc
        change ((Machine.setClient _ c' _).client c').ids ≠ none at hids
        rw [Machine.setClient_self] at hids
        exact absurd rfl hids
      · change ((Machine.setClient _ c _).client c').ids ≠ none at hids
        rw [Machine.setClient_of_ne _ hc] at hids
        simpa [hc] using h.manned c' hids
  | @act a m hplain hmachine =>
    refine h.act hlt hmachine fun c hids => h.manned c ?_
    rwa [← (Machine.steady_step hplain (Machine.step_moves hmachine)).ids c]
  | @closeTasks m hmain hmachine =>
    refine h.act hlt hmachine fun c hids => h.manned c ?_
    rwa [← (Machine.steady_step (a := .shutdown) rfl (Machine.step_moves hmachine)).ids c]
  | managerDestroy hmain hhands hworkers =>
    have hquiet : Quiet s := by
      refine ⟨h, fun c => ?_⟩
      have hc := hhands c
      cases hhand : s.hand c with
      | exited => rfl
      | _ => rw [hhand] at hc; cases hc
    have hdone := hquiet.managerDestroy
    generalize s.sessionManagerDestroy = final at hdone ⊢
    refine ⟨hdone.1.base.same ⟨rfl, rfl⟩, ?_⟩
    change final.machine.heap.nextSessionId.toNat ≤ _
    rw [hdone.2]
    exact Nat.le_succ _
  | _ => exact ⟨h.same ⟨rfl, rfl⟩, Nat.le_succ _⟩

theorem Attended.connect (h : Attended s) (hb : Base s) {c : κ} {fault : CreateFault} {conn : Connection}
    {m : Machine κ ω} (hhand : s.hand c = .popped conn) (hmachine : s.machine.step (.connect c fault conn.fd) = some m) :
    Attended (s.connect c fault conn m) := by
  have hpositive : s.machine.heap.nextSessionId ≠ 0 := (hb.numbered.fresh (.connect c fault conn.fd : Action κ ω)).2
  have hrange := Heap.range_create h.range fault conn.fd
  cases Machine.step_moves hmachine with
  | connect hidle =>
    rw [ServerProcess.connect]
    rcases Heap.create_cases fault s.machine.heap conn.fd with heq | heq | ⟨i, hfree, heq⟩
    · rw [heq]
      refine h.connectFailed hb hhand ?_
      exact ⟨rfl, fun _ => rfl, fun _ => rfl, fun c' => congrArg _ (by simp [Machine.setClient, Machine.setHeap, ← hidle])⟩
    · rw [heq]
      refine h.connectFailed hb hhand ?_
      exact ⟨rfl, fun _ => rfl, fun _ => rfl, fun c' => congrArg _ (by simp [Machine.setClient, Machine.setHeap, ← hidle])⟩
    · rw [heq] at hrange ⊢
      have hi := hrange i _ (Heap.sessions_store.mpr (.inl ⟨rfl, rfl⟩))
      simp only [if_neg hpositive]
      exact h.connectStored hb hhand hfree hi rfl

/-- Every step of which no client thread closes a connection behind its session keeps the
connections in their places. -/
theorem attended_step {e : Event κ ω} (h : Attended s) (hb : Base s) (hdrop : NoDrop s e) (hstep : Moves s e s') :
    Attended s' := by
  cases hstep with
  | accept hmain hfd hfree =>
    refine h.front (h.sound.accept .main hfd hfree fun place conn => ?_) h.exited (by simp)
    cases place with
    | main => simp [Carries, hmain, MainPhase.connection, eq_comm]
    | _ => simp [Carries]
  | @pushed conn conn' clients hmain hcall =>
    have hitems := Fifo.items_of_pushed hcall
    refine h.front (h.sound.move .main (.queued s.clients.items.length) conn
      ?_ ?_ ?_ ?_ ?_) (fun c hc => ?_) (by simp)
    · simp [Carries, hmain, MainPhase.connection]
    · simp [Carries, MainPhase.connection]
    · intro other
      simp [Carries, hitems, eq_comm]
    · intro place other hsource htarget
      cases place with
      | main => exact absurd rfl hsource
      | queued i =>
        have hi : i ≠ s.clients.items.length := by
          rintro rfl
          exact htarget rfl
        simp only [Carries, hitems]
        rcases Nat.lt_or_gt_of_ne hi with hlt | hgt
        · rw [List.getElem?_append_left hlt]
        · rw [List.getElem?_eq_none (by simp; omega), List.getElem?_eq_none (Nat.le_of_lt hgt)]
      | thread c => exact Iff.rfl
      | session p => exact Iff.rfl
    · intro other hother
      simpa [Carries, hmain, MainPhase.connection] using hother.symm
    · have hopen := (Fifo.open_of_pushed hcall).1
      exact absurd ((h.exited c hc).1.symm.trans hopen) (by decide)
  | @refused conn hmain =>
    refine h.front (h.sound.congr (carries_same ?_ rfl (fun _ => rfl) rfl fun _ _ _ => rfl)) h.exited (by simp)
    rw [hmain]
    rfl
  | @reject conn hmain =>
    refine h.front (h.sound.close .main ?_ ?_ ?_ ?_) h.exited (by simp)
    · simp [Carries, hmain, MainPhase.connection]
    · simp [Carries, MainPhase.connection]
    · intro place other hplace
      cases place with
      | main => exact absurd rfl hplace
      | _ => exact Iff.rfl
    · intro other hother
      simpa [Carries, hmain, MainPhase.connection] using hother.symm
  | stop hmain =>
    refine h.front (h.sound.congr (carries_same ?_ rfl (fun _ => rfl) rfl fun _ _ _ => rfl)) h.exited (by simp)
    rw [hmain]
    rfl
  | closeClients hmain =>
    refine h.front (h.sound.congr (carries_same ?_ rfl (fun _ => rfl) rfl fun _ _ _ => rfl))
      (fun c hc => ⟨rfl, (h.exited c hc).2⟩) (by simp)
    rw [hmain]
    rfl
  | interrupt =>
    exact h.front (h.sound.congr (carries_same rfl rfl (fun _ => rfl) rfl fun _ _ _ => rfl))
      (fun c hc => ⟨rfl, (h.exited c hc).2⟩) id
  | closeTasks hmain hmachine =>
    refine h.act (Machine.steady_step (a := .shutdown) rfl (Machine.step_moves hmachine)) ?_ (by simp)
    rw [hmain]
    rfl
  | popped hhand hcall => exact h.popped hhand (Fifo.items_of_popped hcall)
  | ended hhand hcall => exact h.ended hhand (Fifo.empty_of_ended hcall)
  | dropFailed hhand => exact h.dropFailed hhand
  | dropUnfound hhand hclient => exact absurd hhand (hdrop _)
  | connect hhand hmachine => exact h.connect hb hhand hmachine
  | @destroy c id m hhand hmachine =>
    rcases hhand with ⟨⟨conn, hhand⟩, p, hclosing⟩ | ⟨hdropped, _⟩
    · cases Machine.step_moves hmachine with
      | @destroy _ id' hc =>
        obtain rfl : id' = id := by
          rcases hc with ⟨q, hc⟩ | hc
          · exact (ClientPhase.closing.inj (hc.symm.trans hclosing)).2
          · rw [hclosing] at hc
            cases hc
        exact h.destroy hb id' hhand
    · exact absurd hdropped (h.undropped c)
  | act hplain hmachine => exact h.act (Machine.steady_step hplain (Machine.step_moves hmachine)) rfl id
  | managerDestroy hmain hhands hworkers =>
    have hjoined : Joined s := by
      refine ⟨⟨hb, fun c => ?_⟩, h, hmain⟩
      have hc := hhands c
      cases hhand : s.hand c with
      | exited => rfl
      | _ => rw [hhand] at hc; cases hc
    have hdone := hjoined.managerDestroy
    generalize s.sessionManagerDestroy = final at hdone ⊢
    obtain ⟨hlast, hnone⟩ := hdone
    have hfinal := hlast.attended
    have hconnection : MainPhase.returned.connection = final.main.connection := by
      rw [hlast.joining]
      rfl
    exact ⟨hfinal.sound.congr (carries_same hconnection rfl (fun _ => rfl) rfl fun _ _ _ => rfl), hfinal.endpoints,
      hfinal.serving, hfinal.undropped, hfinal.exited, hfinal.range, fun _ => ⟨hlast.exited, hnone⟩⟩

/-- A client thread that closes a connection behind its session leaves it in two places. -/
theorem noDrop_of_closedOnce {e : Event κ ω} (h : Attended s) (hb : Base s) (hstep : Moves s e s')
    (hclosed : ClosedOnce s') : NoDrop s e := by
  cases hstep with
  | dropFailed hhand =>
    intro conn
    rw [hhand]
    simp
  | @dropUnfound c conn id hhand hclient =>
    obtain ⟨p, hp⟩ := h.session hb hhand
    have hgone : conn ∈ (s.table.close conn conn.fd).closed.map Prod.fst := by simp [Table.close]
    exact absurd (hclosed.sound.kept.single (some (.session p)) none conn hp hgone) (by simp)
  | _ => trivial

/-- In every run that is shorter than the session ids last: every connection is in one place,
closed once and by its own descriptor, and closed when `main` returns, exactly when no client
thread closes a connection behind a session that it has not found. -/
theorem closed_once_iff [Fintype κ] [Fintype ω] [Nonempty κ] (capacity taskCapacity : Nat) {events : List (Event κ ω)}
    (hlength : events.length < 2 ^ 64 - 1) :
    Always step ClosedOnce (start capacity taskCapacity) events ↔ Along step NoDrop (start capacity taskCapacity) events := by
  have hids : Along step (fun s _ => s.machine.heap.nextSessionId.toNat < 2 ^ 64 - 1) (start capacity taskCapacity)
      events := by
    refine along_of_budget Base (fun s => s.machine.heap.nextSessionId.toNat) (2 ^ 64 - 1)
      (fun s e s' hb hlt hstep => base_step hb hlt (step_moves hstep)) (fun _ _ _ hlt => hlt) (base_start _ _) ?_
    have hone : (start capacity taskCapacity : ServerProcess κ ω).machine.heap.nextSessionId.toNat = 1 := rfl
    omega
  have closed : ∀ s : ServerProcess κ ω, Base s ∧ Attended s → ClosedOnce s := fun s hs => hs.2.closedOnce hs.1
  refine always_iff_along_given ?_ closed ?_ ⟨base_start _ _, attended_start _ _⟩ hids
  · rintro s e s' ⟨hb, ha⟩ hlt hdrop hstep
    exact ⟨(base_step hb hlt (step_moves hstep)).1, attended_step ha hb hdrop (step_moves hstep)⟩
  · rintro s e s' ⟨hb, ha⟩ hstep hclosed
    exact noDrop_of_closedOnce ha hb (step_moves hstep) hclosed

end

end ServerProcess

/-- Two connections, the second one under the descriptor of the first, up to the end of `main`. -/
def wholeLife : List (Event (Fin 1) (Fin 1)) :=
  let c : Fin 1 := Fin.last 0
  let client : List (Event (Fin 1) (Fin 1)) :=
    [.accept 4, .offer, .take c, .connect c .none, .act (.get c), .act (.quit c), .act (.markInactive c), .destroy c]
  client ++ client ++ [.stop, .closeClients, .closeTasks, .take c, .act (.pop c), .managerDestroy]

theorem closed_once_iff_wholeLife :
    (run ServerProcess.step (ServerProcess.start 10 100) wholeLife).map (fun s => (s.main, s.table.closed)) =
        some (.returned, [(⟨0, 4⟩, some 0), (⟨1, 4⟩, some 1)]) ∧
      (Always ServerProcess.step ServerProcess.ClosedOnce (ServerProcess.start 10 100) wholeLife ↔
        Along ServerProcess.step ServerProcess.NoDrop (ServerProcess.start 10 100) wholeLife) :=
  ⟨by decide +kernel, ServerProcess.closed_once_iff 10 100 (by decide)⟩

end Stash.Delivery
