import Stash.Delivery.ClientsAndWorkers

/-! Responses reach the session and the task they belong to, as long as every session that is
created gets an id that no session in the table has. -/
namespace Stash.Delivery
open Foundation.CText Foundation.Fifos Foundation.LinearProbing Foundation.Runs Sessions Threads

def ClientPhase.ids : ClientPhase → Option UInt64
  | .idle => none
  | .created id | .unfound id => some id
  | .reading _ id | .pushing _ id | .waiting _ id | .woken _ id | .sending _ id | .leaving _ id
  | .closing _ id => some id

def ClientPhase.pointer : ClientPhase → Option Nat
  | .idle | .created _ | .unfound _ => none
  | .reading p _ | .pushing p _ | .waiting p _ | .woken p _ | .sending p _ | .leaving p _ | .closing p _ => some p

/-- The task that a worker has not answered yet. -/
def WorkerPhase.job : WorkerPhase → Option Job
  | .processing job | .delivering job _ | .setting job _ _ => some job
  | .idle | .counting _ | .reporting _ | .exited => none

inductive JobPlace (ω : Type*) where
  | queued (i : Nat)
  | held (w : ω)

namespace Machine
variable {κ ω : Type*}

/-- An outstanding task is in the queue or with a worker. -/
def Holds (m : Machine κ ω) : JobPlace ω → Job → Prop
  | .queued i, job => m.queue.items[i]? = some job
  | .held w, job => (m.worker w).job = some job

/-- No session is stored under an id that a session in the table has. -/
def FreshId (m : Machine κ ω) : Action κ ω → Prop
  | .connect _ fault socketFd => (m.heap.create fault socketFd).2 ≠ 0 →
      ∀ i p, m.heap.sessions i = some p → m.heap.sessionId p ≠ m.heap.nextSessionId
  | _ => True

/-- Responses go where they belong: what was sent answers the task that the session had pushed
last, and was not sent before; a worker fills the session that pushed the task; a client thread
that has waited has the response to its task; and a session has one task outstanding at most. -/
structure Delivered (m : Machine κ ω) : Prop where
  answered : ∀ e ∈ m.sends, ∃ serial, e.producedBy = some serial ∧ e.lastPushed = some serial
  once : (m.sends.map fun e => (e.session, e.producedBy)).Nodup
  addressed : ∀ w job response p, m.worker w = .setting job response p → p = job.session
  returned : ∀ c p id, m.client c = .woken p id ∨ m.client c = .sending p id →
    ∃ serial, (m.heap.objects p).producedBy = some serial ∧ (m.heap.objects p).lastPushed = some serial
  single : ∀ place place' job job', m.Holds place job → m.Holds place' job' → job.session = job'.session →
    place = place'

/-- Every client thread that has a session has one of its own, in the table under its id. -/
structure Owned (m : Machine κ ω) : Prop where
  below : ∀ i p, m.heap.sessions i = some p → p < m.heap.allocated
  slots : ∀ i j p, m.heap.sessions i = some p → m.heap.sessions j = some p → i = j
  ids : ∀ i j p q, m.heap.sessions i = some p → m.heap.sessions j = some q →
    m.heap.sessionId p = m.heap.sessionId q → m.heap.sessionId p ≠ 0 → i = j
  live : ∀ i p, m.heap.sessions i = some p → (m.heap.objects p).destroyed = false
  entry : ∀ c id, (m.client c).ids = some id → id ≠ 0 ∧ ∃ i p, m.heap.sessions i = some p ∧ m.heap.sessionId p = id
  own : ∀ c p, (m.client c).pointer = some p →
    ∃ i, m.heap.sessions i = some p ∧ (m.client c).ids = some (m.heap.sessionId p)
  distinct : ∀ c c' id, (m.client c).ids = some id → (m.client c').ids = some id → c = c'

variable {m m' : Machine κ ω}

theorem owned_start (capacity : Nat) : Owned (start capacity : Machine κ ω) where
  below := by simp [start]
  slots := by simp [start]
  ids := by simp [start]
  live := by simp [start]
  entry := by simp [start, ClientPhase.ids]
  own := by simp [start, ClientPhase.pointer]
  distinct := by simp [start, ClientPhase.ids]

theorem Owned.pointer_inj (h : Owned m) {c c' : κ} {p : Nat} (hc : (m.client c).pointer = some p)
    (hc' : (m.client c').pointer = some p) : c = c' := by
  obtain ⟨_, _, hid⟩ := h.own c p hc
  obtain ⟨_, _, hid'⟩ := h.own c' p hc'
  exact h.distinct c c' _ hid hid'

/-- A lookup by the id of a client thread ends at the session of that thread. -/
theorem Owned.find_own (h : Owned m) {c : κ} {i p q : Nat} {id : UInt64} (hp : (m.client c).pointer = some p)
    (hid : (m.client c).ids = some id) (hfind : m.heap.find id = some (i, q)) : q = p := by
  obtain ⟨j, hj, hown⟩ := h.own c p hp
  obtain ⟨hi, hq, hz⟩ := Heap.find_some hfind
  obtain rfl := Option.some.inj (hid.symm.trans hown)
  obtain rfl := h.ids i j q p hi hj hq (by rwa [hq])
  exact Option.some.inj (hi.symm.trans hj)

/-- The table and the client threads' sessions stay as they are. -/
theorem Owned.frame (h : Owned m) (hsessions : m'.heap.sessions = m.heap.sessions)
    (hallocated : m'.heap.allocated = m.heap.allocated) (hid : ∀ p, m'.heap.sessionId p = m.heap.sessionId p)
    (hlive : ∀ p, (m'.heap.objects p).destroyed = (m.heap.objects p).destroyed)
    (hclient : ∀ c, (m'.client c).ids = (m.client c).ids ∧ (m'.client c).pointer = (m.client c).pointer) :
    Owned m' where
  below := by rw [hsessions, hallocated]; exact h.below
  slots := by rw [hsessions]; exact h.slots
  ids := by simp only [hsessions, hid]; exact h.ids
  live := by simp only [hsessions, hlive]; exact h.live
  entry := by simp only [hsessions, hid, hclient]; exact h.entry
  own := by simp only [hsessions, hid, hclient]; exact h.own
  distinct := by simp only [hclient]; exact h.distinct

theorem Owned.modify (h : Owned m) (p : Nat) {f : SessionObject → SessionObject}
    (hid : ∀ o, (f o).session.sessionId = o.session.sessionId) (hlive : ∀ o, (f o).destroyed = o.destroyed) :
    Owned (m.setHeap (m.heap.modify p f)) := by
  have hids : ∀ q, (m.heap.modify p f).sessionId q = m.heap.sessionId q := fun q => Heap.sessionId_modify hid
  have hall : ∀ q, ((m.heap.modify p f).objects q).destroyed = (m.heap.objects q).destroyed :=
    fun q => Heap.destroyed_modify hlive
  exact h.frame rfl rfl hids hall fun c => ⟨rfl, rfl⟩

/-- A session that no client thread has can go. -/
theorem Owned.remove (h : Owned m) {i p : Nat} (hslot : m.heap.sessions i = some p)
    (hfree : ∀ c, (m.client c).ids ≠ some (m.heap.sessionId p)) : Owned (m.setHeap (m.heap.remove i p)) := by
  have hkept : ∀ c j q, (m.client c).ids = some (m.heap.sessionId q) → m.heap.sessions j = some q →
      (m.heap.remove i p).sessions j = some q := by
    intro c j q hc hj
    refine Heap.sessions_remove.mpr ⟨?_, hj⟩
    rintro rfl
    obtain rfl := Option.some.inj (hj.symm.trans hslot)
    exact hfree c hc
  refine { below := ?_, slots := ?_, ids := ?_, live := ?_, entry := ?_, own := ?_, distinct := h.distinct }
  · exact fun j q hq => h.below j q (Heap.sessions_remove.mp hq).2
  · exact fun j k q hj hk => h.slots j k q (Heap.sessions_remove.mp hj).2 (Heap.sessions_remove.mp hk).2
  · intro j k q r hj hk hqr hz
    rw [setHeap, Heap.sessionId_remove, Heap.sessionId_remove] at hqr
    rw [setHeap, Heap.sessionId_remove] at hz
    exact h.ids j k q r (Heap.sessions_remove.mp hj).2 (Heap.sessions_remove.mp hk).2 hqr hz
  · intro j q hq
    obtain ⟨hj, hold⟩ := Heap.sessions_remove.mp hq
    have hne : q ≠ p := by
      rintro rfl
      exact hj (h.slots j i q hold hslot)
    simpa [setHeap, hne] using h.live j q hold
  · intro c id hc
    obtain ⟨hz, j, q, hj, rfl⟩ := h.entry c id hc
    exact ⟨hz, j, q, hkept c j q hc hj, Heap.sessionId_remove⟩
  · intro c q hq
    obtain ⟨j, hj, hown⟩ := h.own c q hq
    refine ⟨j, hkept c j q hown hj, ?_⟩
    rw [setHeap, Heap.sessionId_remove]
    exact hown

/-- The next object is none of the table. -/
theorem Owned.below_ne (h : Owned m) {j p : Nat} (hj : m.heap.sessions j = some p) : p ≠ m.heap.allocated :=
  Nat.ne_of_lt (h.below j p hj)

/-- A new session under an id that is not in the table. -/
theorem Owned.stored (h : Owned m) {i : Nat} {o : SessionObject} (hfree : m.heap.sessions i = none)
    (hlive : o.destroyed = false) (hfresh : o.session.sessionId ≠ 0 →
      ∀ j p, m.heap.sessions j = some p → m.heap.sessionId p ≠ o.session.sessionId) :
    Owned (m.setHeap (m.heap.store i o)) where
  below j p hp := by
    rcases Heap.sessions_store.mp hp with ⟨_, rfl⟩ | ⟨_, hj⟩
    · exact Nat.lt_succ_self _
    · exact Nat.lt_succ_of_lt (h.below j p hj)
  slots j k p hj hk := by
    rcases Heap.sessions_store.mp hj with ⟨rfl, rfl⟩ | ⟨_, hj⟩
    · rcases Heap.sessions_store.mp hk with ⟨rfl, _⟩ | ⟨_, hk⟩
      · rfl
      · exact absurd (h.below k _ hk) (Nat.lt_irrefl _)
    · rcases Heap.sessions_store.mp hk with ⟨_, rfl⟩ | ⟨_, hk⟩
      · exact absurd (h.below j _ hj) (Nat.lt_irrefl _)
      · exact h.slots j k p hj hk
  ids j k p q hj hk hpq hz := by
    rw [setHeap] at hpq hz
    rcases Heap.sessions_store.mp hj with ⟨rfl, rfl⟩ | ⟨_, hj⟩
    · rcases Heap.sessions_store.mp hk with ⟨rfl, _⟩ | ⟨_, hk⟩
      · rfl
      · rw [Heap.sessionId_stored] at hpq hz
        rw [Heap.sessionId_store (h.below_ne hk)] at hpq
        exact absurd hpq.symm (hfresh hz k q hk)
    · rcases Heap.sessions_store.mp hk with ⟨_, rfl⟩ | ⟨_, hk⟩
      · rw [Heap.sessionId_stored, Heap.sessionId_store (h.below_ne hj)] at hpq
        rw [Heap.sessionId_store (h.below_ne hj), hpq] at hz
        exact absurd hpq (hfresh hz j p hj)
      · rw [Heap.sessionId_store (h.below_ne hj), Heap.sessionId_store (h.below_ne hk)] at hpq
        rw [Heap.sessionId_store (h.below_ne hj)] at hz
        exact h.ids j k p q hj hk hpq hz
  live j p hp := by
    rw [setHeap]
    rcases Heap.sessions_store.mp hp with ⟨_, rfl⟩ | ⟨_, hj⟩
    · rw [Heap.store_objects, Function.update_self]
      exact hlive
    · rw [Heap.objects_store (h.below_ne hj)]
      exact h.live j p hj
  entry c id hid := by
    obtain ⟨hz, j, p, hj, hp⟩ := h.entry c id hid
    exact ⟨hz, j, p, Heap.sessions_kept hfree hj, (Heap.sessionId_store (h.below_ne hj)).trans hp⟩
  own c p hp := by
    obtain ⟨j, hj, hown⟩ := h.own c p hp
    exact ⟨j, Heap.sessions_kept hfree hj, hown.trans (congrArg some (Heap.sessionId_store (h.below_ne hj)).symm)⟩
  distinct := h.distinct

section
variable [DecidableEq κ]

/-- One client thread moves on with the session that it has, and one session is written. -/
theorem Owned.move (h : Owned m) {c : κ} {before after : ClientPhase} (hbefore : m.client c = before)
    (hids : after.ids = before.ids) (hpointer : after.pointer = before.pointer) : Owned (m.setClient c after) := by
  refine h.frame rfl rfl (fun _ => rfl) (fun _ => rfl) fun c' => ?_
  by_cases hc : c' = c
  · subst hc
    simp [setClient, hbefore, hids, hpointer]
  · simp [setClient, hc]

@[simp] theorem setClient_self (m : Machine κ ω) (c : κ) (phase : ClientPhase) :
    (m.setClient c phase).client c = phase := by
  simp [setClient]

theorem setClient_of_ne (m : Machine κ ω) {c c' : κ} (hc : c' ≠ c) (phase : ClientPhase) :
    (m.setClient c phase).client c' = m.client c' := by
  simp [setClient, hc]

/-- A client thread that goes idle gives its session up. -/
theorem Owned.leave (h : Owned m) (c : κ) : Owned (m.setClient c .idle) where
  below := h.below
  slots := h.slots
  ids := h.ids
  live := h.live
  entry c' id hid := by
    by_cases hc : c' = c
    · subst hc
      simp [ClientPhase.ids] at hid
    · rw [setClient_of_ne m hc] at hid
      exact h.entry c' id hid
  own c' p hp := by
    by_cases hc : c' = c
    · subst hc
      simp [ClientPhase.pointer] at hp
    · rw [setClient_of_ne m hc] at hp ⊢
      exact h.own c' p hp
  distinct c' c'' id hid hid' := by
    by_cases hc : c' = c
    · subst hc
      simp [ClientPhase.ids] at hid
    · by_cases hc' : c'' = c
      · subst hc'
        simp [ClientPhase.ids] at hid'
      · rw [setClient_of_ne m hc] at hid
        rw [setClient_of_ne m hc'] at hid'
        exact h.distinct c' c'' id hid hid'

theorem Owned.destroy (h : Owned m) {c : κ} {id : UInt64} (hc : (m.client c).ids = some id) :
    Owned ((m.setHeap (m.heap.destroy id)).setClient c .idle) := by
  have hleft := h.leave c
  change Owned ((m.setClient c .idle).setHeap (m.heap.destroy id))
  unfold Heap.destroy
  split
  · rename_i i p hfind
    obtain ⟨hslot, hid, _⟩ := Heap.find_some hfind
    refine hleft.remove hslot fun c' hc' => ?_
    by_cases he : c' = c
    · subst he
      simp [ClientPhase.ids] at hc'
    · rw [setClient_of_ne m he] at hc'
      have hid' : (m.client c').ids = some id := by
        rw [hc', ← hid]
        rfl
      exact he (h.distinct c' c id hid' hc)
  · exact hleft

/-- A client thread goes on with a session in the table that no other one has. -/
theorem Owned.enter (h : Owned m) {c : κ} {i p : Nat} {id : UInt64} (hz : id ≠ 0)
    (hslot : m.heap.sessions i = some p) (hid : m.heap.sessionId p = id)
    (hothers : ∀ c', (m.client c').ids ≠ some id) : Owned (m.setClient c (.created id)) where
  below := h.below
  slots := h.slots
  ids := h.ids
  live := h.live
  entry c' id' hid' := by
    by_cases hc : c' = c
    · subst hc
      rw [setClient_self] at hid'
      obtain rfl := Option.some.inj hid'
      exact ⟨hz, i, p, hslot, hid⟩
    · rw [setClient_of_ne _ hc] at hid'
      exact h.entry c' id' hid'
  own c' q hq := by
    by_cases hc : c' = c
    · subst hc
      rw [setClient_self] at hq
      cases hq
    · rw [setClient_of_ne _ hc] at hq ⊢
      exact h.own c' q hq
  distinct c' c'' id' hid' hid'' := by
    by_cases hc : c' = c
    · by_cases hc' : c'' = c
      · rw [hc, hc']
      · subst hc
        rw [setClient_self] at hid'
        obtain rfl := Option.some.inj hid'
        rw [setClient_of_ne _ hc'] at hid''
        exact absurd hid'' (hothers c'')
    · rw [setClient_of_ne _ hc] at hid'
      by_cases hc' : c'' = c
      · subst hc'
        rw [setClient_self] at hid''
        obtain rfl := Option.some.inj hid''
        exact absurd hid' (hothers c')
      · rw [setClient_of_ne _ hc'] at hid''
        exact h.distinct c' c'' id' hid' hid''

/-- A new session under an id that is not in the table belongs to its client thread alone. -/
theorem Owned.store (h : Owned m) {c : κ} {i : Nat} {socketFd : Int} (hfree : m.heap.sessions i = none)
    (hfresh : m.heap.nextSessionId ≠ 0 → ∀ j p, m.heap.sessions j = some p → m.heap.sessionId p ≠ m.heap.nextSessionId) :
    Owned ((m.setHeap ((m.heap.setNext (m.heap.nextSessionId + 1)).store i
      (newObject m.heap.nextSessionId socketFd))).setClient c
        (if m.heap.nextSessionId = 0 then .idle else .created m.heap.nextSessionId)) := by
  have hcounted : Owned (m.setHeap (m.heap.setNext (m.heap.nextSessionId + 1))) :=
    h.frame rfl rfl (fun _ => rfl) (fun _ => rfl) fun _ => ⟨rfl, rfl⟩
  have hstored := hcounted.stored (o := newObject m.heap.nextSessionId socketFd) hfree rfl hfresh
  split
  · exact hstored.leave c
  · rename_i hz
    refine hstored.enter hz (Heap.sessions_store.mpr (.inl ⟨rfl, rfl⟩)) Heap.sessionId_stored fun c' hc' => ?_
    obtain ⟨_, j, p, hj, hp⟩ := h.entry c' _ hc'
    exact hfresh hz j p hj hp

theorem Owned.connect (h : Owned m) {c : κ} (fault : CreateFault) (socketFd : Int) (hidle : m.client c = .idle)
    (hfresh : (m.heap.create fault socketFd).2 ≠ 0 →
      ∀ i p, m.heap.sessions i = some p → m.heap.sessionId p ≠ m.heap.nextSessionId) :
    Owned ((m.setHeap (m.heap.create fault socketFd).1).setClient c
      (if (m.heap.create fault socketFd).2 = 0 then .idle else .created (m.heap.create fault socketFd).2)) := by
  have hmoved : Owned (m.setClient c .idle) := h.move hidle rfl rfl
  rcases Heap.create_cases fault m.heap socketFd with heq | heq | ⟨i, hfree, heq⟩
  · rw [heq]
    exact hmoved
  · rw [heq]
    exact hmoved.frame rfl rfl (fun _ => rfl) (fun _ => rfl) fun _ => ⟨rfl, rfl⟩
  · rw [heq] at hfresh ⊢
    exact h.store hfree hfresh

theorem Owned.found (h : Owned m) {c : κ} {id : UInt64} {p : Nat} (hc : m.client c = .created id)
    (hget : m.heap.get id = some p) : Owned (m.setClient c (.reading p id)) := by
  have hids : ∀ c', ((m.setClient c (.reading p id)).client c').ids = (m.client c').ids := by
    intro c'
    by_cases he : c' = c
    · rw [he, setClient_self, hc]
      rfl
    · rw [setClient_of_ne m he]
  refine { below := h.below, slots := h.slots, ids := h.ids, live := h.live, entry := ?_, own := ?_, distinct := ?_ }
  · intro c' id' hid'
    rw [hids] at hid'
    exact h.entry c' id' hid'
  · intro c' q hq
    rw [hids]
    by_cases he : c' = c
    · subst he
      rw [setClient_self] at hq
      obtain rfl := Option.some.inj hq
      obtain ⟨i, hfind⟩ := Heap.find_of_get hget
      obtain ⟨hi, hid, _⟩ := Heap.find_some hfind
      refine ⟨i, hi, ?_⟩
      rw [hc]
      exact congrArg some hid.symm
    · rw [setClient_of_ne m he] at hq
      exact h.own c' q hq
  · intro c' c'' id' hid' hid''
    rw [hids] at hid' hid''
    exact h.distinct c' c'' id' hid' hid''

/-- Every step keeps the sessions of the client threads apart. -/
theorem owned_step [DecidableEq ω] {a : Action κ ω} (h : Owned m) (hfresh : FreshId m a) (hstep : Moves m a m') :
    Owned m' := by
  have still : ∀ {m'' : Machine κ ω}, Owned m'' → m'.heap = m''.heap → m'.client = m''.client → Owned m' := by
    intro m'' hm'' hheap hclient
    exact hm''.frame (by rw [hheap]) (by rw [hheap]) (fun _ => by rw [hheap]) (fun _ => by rw [hheap])
      fun _ => by rw [hclient]; exact ⟨rfl, rfl⟩
  cases hstep with
  | connect hc => exact h.connect _ _ hc hfresh
  | found hc hget => exact h.found hc hget
  | unfound hc hget => exact h.move hc rfl rfl
  | @reset c p id hc =>
    have hmodified := h.modify p (f := SessionObject.reset) (fun _ => rfl) fun _ => rfl
    exact hmodified.move hc rfl rfl
  | @pushed c task p id queue job hc hcall =>
    have hmodified := h.modify p (f := fun o => o.push m.pushed) (fun _ => rfl) fun _ => rfl
    have hmoved : Owned ((m.setHeap (m.heap.modify p fun o => o.push m.pushed)).setClient c (.waiting p id)) :=
      hmodified.move hc rfl rfl
    exact still hmoved rfl rfl
  | refused hc => exact h.move hc rfl rfl
  | wake hc hready => exact h.move hc rfl rfl
  | active hc => exact h.move hc rfl rfl
  | inactive hc => exact h.move hc rfl rfl
  | @send c ok p id hc =>
    cases ok with
    | true =>
      have hmoved : Owned (m.setClient c (.reading p id)) := h.move hc rfl rfl
      exact still hmoved rfl rfl
    | false =>
      have hmoved : Owned (m.setClient c (.leaving p id)) := h.move hc rfl rfl
      exact still hmoved rfl rfl
  | quit hc => exact h.move hc rfl rfl
  | @markInactive c p id hc =>
    have hmarked : Owned (m.setHeap (m.heap.markInactive id)) := by
      unfold Heap.markInactive
      split
      · exact h.modify _ (fun _ => rfl) fun _ => rfl
      · exact h
    exact hmarked.move hc rfl rfl
  | destroy hc =>
    rcases hc with ⟨p, hc⟩ | hc
    · exact h.destroy (by rw [hc]; rfl)
    · exact h.destroy (by rw [hc]; rfl)
  | pop hw hcall => exact still h rfl rfl
  | ended hw => exact still h rfl rfl
  | produce hw => exact still h rfl rfl
  | lookup hw hget => exact still h rfl rfl
  | dropped hw hget => exact still h rfl rfl
  | @set w response job p hw =>
    exact still (h.modify p (f := fun o => o.set job.serial response) (fun _ => rfl) fun _ => rfl) rfl rfl
  | @count w p hw => exact still (h.modify p (f := SessionObject.increment) (fun _ => rfl) fun _ => rfl) rfl rfl
  | report hw => exact still h rfl rfl
  | shutdown => exact still h rfl rfl

end

/-- The number of a task whose response has not gone to the client of this session. -/
def Unsent (m : Machine κ ω) (p serial : Nat) : Prop :=
  serial < m.pushed ∧ ∀ e ∈ m.sends, e.session = p → e.producedBy ≠ some serial

/-- What a client thread can rely on in each phase. -/
def ClientOk (m : Machine κ ω) : ClientPhase → Prop
  | .pushing p _ => (m.heap.objects p).ready = false
  | .waiting p _ => ∃ serial, (m.heap.objects p).lastPushed = some serial ∧ m.Unsent p serial ∧
      ((m.heap.objects p).ready = true → (m.heap.objects p).producedBy = some serial)
  | .woken p _ | .sending p _ => ∃ serial, (m.heap.objects p).lastPushed = some serial ∧ m.Unsent p serial ∧
      (m.heap.objects p).producedBy = some serial
  | .idle | .created _ | .unfound _ | .reading _ _ | .leaving _ _ | .closing _ _ => True

/-- An outstanding task has its client thread waiting for it, with the response not yet set, and
is the only one of its session. -/
structure Delivering (m : Machine κ ω) : Prop where
  client : ∀ c, m.ClientOk (m.client c)
  job : ∀ place job, m.Holds place job → ∃ c, m.client c = .waiting job.session job.task.sessionId ∧
    (m.heap.objects job.session).ready = false ∧ (m.heap.objects job.session).lastPushed = some job.serial
  single : ∀ place place' job job', m.Holds place job → m.Holds place' job' → job.session = job'.session →
    place = place'
  addressed : ∀ w job response p, m.worker w = .setting job response p → p = job.session
  answered : ∀ e ∈ m.sends, ∃ serial, e.producedBy = some serial ∧ e.lastPushed = some serial ∧ serial < m.pushed
  once : (m.sends.map fun e => (e.session, e.producedBy)).Nodup

theorem delivering_start (capacity : Nat) : Delivering (start capacity : Machine κ ω) where
  client _ := trivial
  job place job h := by cases place <;> simp [Holds, start, WorkerPhase.job] at h
  single place place' job job' h := by cases place <;> simp [Holds, start, WorkerPhase.job] at h
  addressed := by simp [start]
  answered := by simp [start]
  once := by simp [start]

theorem Delivering.delivered (h : Delivering m) : Delivered m where
  answered e he := by
    obtain ⟨serial, hproduced, hlast, _⟩ := h.answered e he
    exact ⟨serial, hproduced, hlast⟩
  once := h.once
  addressed := h.addressed
  returned c p id hc := by
    have hok := h.client c
    rcases hc with hc | hc
    · rw [hc] at hok
      obtain ⟨serial, hlast, _, hproduced⟩ := hok
      exact ⟨serial, hproduced, hlast⟩
    · rw [hc] at hok
      obtain ⟨serial, hlast, _, hproduced⟩ := hok
      exact ⟨serial, hproduced, hlast⟩
  single := h.single

/-- The response of `p` and the record beside it are the same in both states. -/
def SameSlot (m m' : Machine κ ω) (p : Nat) : Prop :=
  (m'.heap.objects p).ready = (m.heap.objects p).ready ∧
    (m'.heap.objects p).producedBy = (m.heap.objects p).producedBy ∧
    (m'.heap.objects p).lastPushed = (m.heap.objects p).lastPushed

theorem ClientOk.congr {phase : ClientPhase} (h : m.ClientOk phase)
    (hslot : ∀ p, phase.pointer = some p → SameSlot m m' p)
    (hunsent : ∀ p serial, phase.pointer = some p → m.Unsent p serial → m'.Unsent p serial) :
    m'.ClientOk phase := by
  cases phase with
  | pushing p id => exact (hslot p rfl).1.trans h
  | waiting p id =>
    obtain ⟨hready, hproduced, hlast⟩ := hslot p rfl
    obtain ⟨serial, hserial, hnot, hset⟩ := h
    refine ⟨serial, hlast.trans hserial, hunsent p serial rfl hnot, ?_⟩
    rw [hready, hproduced]
    exact hset
  | woken p id =>
    obtain ⟨_, hproduced, hlast⟩ := hslot p rfl
    obtain ⟨serial, hserial, hnot, hset⟩ := h
    exact ⟨serial, hlast.trans hserial, hunsent p serial rfl hnot, hproduced.trans hset⟩
  | sending p id =>
    obtain ⟨_, hproduced, hlast⟩ := hslot p rfl
    obtain ⟨serial, hserial, hnot, hset⟩ := h
    exact ⟨serial, hlast.trans hserial, hunsent p serial rfl hnot, hproduced.trans hset⟩
  | idle => trivial
  | created id => trivial
  | unfound id => trivial
  | reading p id => trivial
  | leaving p id => trivial
  | closing p id => trivial

/-- No client thread that waits for an outstanding task is moved or has its response written. -/
theorem Delivering.frame (h : Delivering m)
    (hclient : ∀ c, (m'.client c = m.client c ∧ ∀ p, (m.client c).pointer = some p → SameSlot m m' p) ∨
      (m'.ClientOk (m'.client c) ∧
        ∀ place job, m'.Holds place job → m.client c ≠ .waiting job.session job.task.sessionId))
    (hholds : ∀ place job, m'.Holds place job → ∃ place', m.Holds place' job)
    (hsingle : ∀ place place' job job', m'.Holds place job → m'.Holds place' job' → job.session = job'.session →
      place = place')
    (haddressed : ∀ w job response p, m'.worker w = .setting job response p → p = job.session)
    (hsends : m'.sends = m.sends) (hpushed : m'.pushed = m.pushed) : Delivering m' where
  client c := by
    rcases hclient c with ⟨hsame, hslot⟩ | ⟨hok, _⟩
    · rw [hsame]
      exact (h.client c).congr hslot fun p serial _ hp => by rwa [Unsent, hsends, hpushed]
    · exact hok
  job place job hjob := by
    obtain ⟨place', hold⟩ := hholds place job hjob
    obtain ⟨c, hc, hready, hlast⟩ := h.job place' job hold
    rcases hclient c with ⟨hsame, hslot⟩ | ⟨_, hnot⟩
    · obtain ⟨hready', _, hlast'⟩ := hslot job.session (by rw [hc]; rfl)
      exact ⟨c, hsame.trans hc, hready'.trans hready, hlast'.trans hlast⟩
    · exact absurd hc (hnot place job hjob)
  single := hsingle
  addressed := haddressed
  answered := by rw [hsends, hpushed]; exact h.answered
  once := by rw [hsends]; exact h.once

theorem SameSlot.refl (m : Machine κ ω) (p : Nat) : SameSlot m m p := ⟨rfl, rfl, rfl⟩

theorem sameSlot_modify_of_ne {p q : Nat} (hq : q ≠ p) (f : SessionObject → SessionObject) :
    SameSlot m (m.setHeap (m.heap.modify p f)) q := by
  simp [SameSlot, setHeap, hq]

/-- A write to a session that leaves its response alone. -/
theorem sameSlot_modify (p q : Nat) {f : SessionObject → SessionObject}
    (hready : ∀ o, (f o).ready = o.ready) (hproduced : ∀ o, (f o).producedBy = o.producedBy)
    (hlast : ∀ o, (f o).lastPushed = o.lastPushed) : SameSlot m (m.setHeap (m.heap.modify p f)) q := by
  by_cases hq : q = p
  · subst hq
    simp [SameSlot, setHeap, hready, hproduced, hlast]
  · exact sameSlot_modify_of_ne hq f

/-- The heap changes, the responses of the client threads' sessions do not. -/
theorem Delivering.heap (h : Delivering m) {heap : Heap}
    (hslot : ∀ c p, (m.client c).pointer = some p → SameSlot m (m.setHeap heap) p) :
    Delivering (m.setHeap heap) := by
  refine h.frame (fun c => .inl ⟨rfl, hslot c⟩) ?_ ?_ h.addressed rfl rfl
  · exact fun place job hjob => ⟨place, by cases place <;> exact hjob⟩
  · intro place place' job job' hjob hjob'
    exact h.single place place' job job' (by cases place <;> exact hjob) (by cases place' <;> exact hjob')

section
variable [DecidableEq κ]

/-- A client thread moves on that does not wait for an outstanding task. -/
theorem Delivering.move (h : Delivering m) {c : κ} (phase : ClientPhase) (hok : m.ClientOk phase)
    (hnot : ∀ place job, m.Holds place job → m.client c ≠ .waiting job.session job.task.sessionId) :
    Delivering (m.setClient c phase) := by
  have hholds : ∀ place job, (m.setClient c phase).Holds place job → m.Holds place job := by
    intro place job hjob
    cases place <;> exact hjob
  refine h.frame (fun c' => ?_) (fun place job hjob => ⟨place, hholds place job hjob⟩) ?_ h.addressed rfl rfl
  · by_cases hc : c' = c
    · subst hc
      refine .inr ⟨?_, fun place job hjob => hnot place job (hholds place job hjob)⟩
      rw [setClient_self]
      exact hok.congr (fun p _ => SameSlot.refl m p) fun p serial _ hp => hp
    · exact .inl ⟨setClient_of_ne m hc phase, fun p _ => SameSlot.refl m p⟩
  · intro place place' job job' hjob hjob'
    exact h.single place place' job job' (hholds place job hjob) (hholds place' job' hjob')

theorem Delivering.reset (h : Delivering m) (ho : Owned m) {c : κ} {p : Nat} {id : UInt64}
    (hc : m.client c = .reading p id) :
    Delivering ((m.setHeap (m.heap.modify p SessionObject.reset)).setClient c (.pushing p id)) := by
  set m' := (m.setHeap (m.heap.modify p SessionObject.reset)).setClient c (.pushing p id) with hm'
  have hholds : ∀ place job, m'.Holds place job → m.Holds place job := by
    intro place job hjob
    cases place <;> exact hjob
  refine h.frame (fun c' => ?_) (fun place job hjob => ⟨place, hholds place job hjob⟩) ?_ h.addressed rfl rfl
  · by_cases he : c' = c
    · subst he
      refine .inr ⟨?_, fun place job hjob => by rw [hc]; simp⟩
      rw [hm', setClient_self]
      simp [ClientOk, setClient, setHeap, SessionObject.reset]
    · refine .inl ⟨setClient_of_ne _ he _, fun q hq => ?_⟩
      apply sameSlot_modify_of_ne
      rintro rfl
      exact he (ho.pointer_inj hq (by rw [hc]; rfl))
  · intro place place' job job' hjob hjob'
    exact h.single place place' job job' (hholds place job hjob) (hholds place' job' hjob')

/-- The task that is pushed is the only one of its session. -/
theorem Delivering.enqueue (h : Delivering m) (ho : Owned m) {c : κ} {p : Nat} {id : UInt64} {queue : Fifo Job}
    {task : Task} (hc : m.client c = .pushing p id)
    (hitems : queue.items = m.queue.items ++ [⟨m.pushed, p, { task with sessionId := id }⟩]) :
    Delivering (m.enqueue queue c p id) := by
  set m' := m.enqueue queue c p id with hm'
  set new : Job := ⟨m.pushed, p, { task with sessionId := id }⟩ with hnew
  have hpushing := h.client c
  rw [hc] at hpushing
  have hself : m'.client c = .waiting p id := by simp [hm', Machine.enqueue]
  have hother : ∀ c', c' ≠ c → m'.client c' = m.client c' := by
    intro c' hne
    simp [hm', Machine.enqueue, hne]
  have hslot : ∀ q, q ≠ p → SameSlot m m' q := fun q hq => sameSlot_modify_of_ne hq _
  have hobject : m'.heap.objects p = (m.heap.objects p).push m.pushed := by simp [hm', Machine.enqueue]
  have hnone : ∀ place job, m.Holds place job → job.session ≠ p := by
    rintro place job hjob rfl
    obtain ⟨c', hc', _⟩ := h.job place job hjob
    obtain rfl := ho.pointer_inj (c := c') (p := job.session) (by rw [hc']; rfl) (by rw [hc]; rfl)
    rw [hc] at hc'
    cases hc'
  have hholds : ∀ place job, m'.Holds place job → m.Holds place job ∨
      (place = .queued m.queue.items.length ∧ job = new) := by
    intro place job hjob
    cases place with
    | held w => exact .inl hjob
    | queued i =>
      change queue.items[i]? = some job at hjob
      rw [hitems, List.getElem?_append] at hjob
      split at hjob
      · exact .inl hjob
      · obtain ⟨hi, hjob⟩ := List.getElem?_eq_some_iff.mp hjob
        have hzero : i - m.queue.items.length = 0 := by simpa using hi
        refine .inr ⟨by congr 1; omega, ?_⟩
        simpa [hzero] using hjob.symm
  refine { client := ?_, job := ?_, single := ?_, addressed := h.addressed, answered := ?_, once := h.once }
  · intro c'
    by_cases he : c' = c
    · subst he
      rw [hself]
      refine ⟨m.pushed, by rw [hobject]; rfl, ⟨Nat.lt_succ_self _, ?_⟩, fun hready => ?_⟩
      · intro e hmem _ hproduced
        obtain ⟨serial, hserial, _, hlt⟩ := h.answered e hmem
        rw [hproduced] at hserial
        obtain rfl := Option.some.inj hserial
        exact absurd hlt (Nat.lt_irrefl _)
      · rw [hobject] at hready
        exact absurd (hpushing.symm.trans hready) (by simp)
    · rw [hother c' he]
      refine (h.client c').congr (fun q hq => hslot q ?_) fun q serial _ hq => ⟨Nat.lt_succ_of_lt hq.1, hq.2⟩
      rintro rfl
      exact he (ho.pointer_inj hq (by rw [hc]; rfl))
  · intro place job hjob
    rcases hholds place job hjob with hold | ⟨_, rfl⟩
    · obtain ⟨c', hc', hready, hlast⟩ := h.job place job hold
      obtain ⟨hready', _, hlast'⟩ := hslot job.session (hnone place job hold)
      refine ⟨c', ?_, hready'.trans hready, hlast'.trans hlast⟩
      rw [hother c' ?_, hc']
      rintro rfl
      rw [hc] at hc'
      cases hc'
    · refine ⟨c, hself, ?_, ?_⟩
      · rw [hobject]
        exact hpushing
      · rw [hobject]
        rfl
  · intro place place' job job' hjob hjob' hsession
    rcases hholds place job hjob with hold | ⟨hplace, hjobnew⟩
    · rcases hholds place' job' hjob' with hold' | ⟨_, rfl⟩
      · exact h.single place place' job job' hold hold' hsession
      · exact absurd hsession (hnone place job hold)
    · rcases hholds place' job' hjob' with hold' | ⟨hplace', _⟩
      · rw [hjobnew] at hsession
        exact absurd hsession.symm (hnone place' job' hold')
      · rw [hplace, hplace']
  · intro e hmem
    obtain ⟨serial, hproduced, hlast, hlt⟩ := h.answered e hmem
    exact ⟨serial, hproduced, hlast, Nat.lt_succ_of_lt hlt⟩

/-- The response that is sent answers the last task, and goes out for the first time. -/
theorem Delivering.deliver (h : Delivering m) (ho : Owned m) {c : κ} {p : Nat} {id : UInt64} {phase : ClientPhase}
    (hc : m.client c = .sending p id) (hok : ∀ m' : Machine κ ω, m'.ClientOk phase) :
    Delivering (m.deliver c p phase) := by
  have hsending := h.client c
  rw [hc] at hsending
  obtain ⟨serial, hlast, hunsent, hproduced⟩ := hsending
  have hother : ∀ c', c' ≠ c → (m.deliver c p phase).client c' = m.client c' := by
    intro c' hne
    simp [Machine.deliver, hne]
  have hholds : ∀ place job, (m.deliver c p phase).Holds place job → m.Holds place job := by
    intro place job hjob
    cases place <;> exact hjob
  refine { client := ?_, job := ?_, single := ?_, addressed := h.addressed, answered := ?_, once := ?_ }
  · intro c'
    by_cases he : c' = c
    · subst he
      simpa [Machine.deliver] using hok _
    · rw [hother c' he]
      refine (h.client c').congr (fun q _ => SameSlot.refl m q) fun q other hq hnot => ⟨hnot.1, ?_⟩
      intro e hmem hsession
      rcases List.mem_append.mp hmem with hold | hnew
      · exact hnot.2 e hold hsession
      · obtain rfl := List.mem_singleton.mp hnew
        obtain rfl : p = q := hsession
        exact absurd (ho.pointer_inj hq (by rw [hc]; rfl)) he
  · intro place job hjob
    obtain ⟨c', hc', hready, hlast'⟩ := h.job place job (hholds place job hjob)
    refine ⟨c', ?_, hready, hlast'⟩
    rw [hother c' ?_, hc']
    rintro rfl
    rw [hc] at hc'
    cases hc'
  · intro place place' job job' hjob hjob'
    exact h.single place place' job job' (hholds place job hjob) (hholds place' job' hjob')
  · intro e hmem
    rcases List.mem_append.mp hmem with hold | hnew
    · exact h.answered e hold
    · obtain rfl := List.mem_singleton.mp hnew
      exact ⟨serial, hproduced, hlast, hunsent.1⟩
  · simp only [Machine.deliver, List.map_append, List.map_singleton]
    refine List.nodup_append.mpr ⟨h.once, by simp, ?_⟩
    rintro pair hold _ hnew rfl
    obtain ⟨e, hmem, rfl⟩ := List.mem_map.mp hold
    obtain ⟨hsession, hby⟩ := Prod.mk.inj (List.mem_singleton.mp hnew)
    exact hunsent.2 e hmem hsession (hby.trans hproduced)

end

section
variable [DecidableEq ω]

theorem setWorker_of_ne (m : Machine κ ω) {w w' : ω} (hw : w' ≠ w) (phase : WorkerPhase) :
    (m.setWorker w phase).worker w' = m.worker w' := by
  simp [setWorker, hw]

@[simp] theorem setWorker_self (m : Machine κ ω) (w : ω) (phase : WorkerPhase) :
    (m.setWorker w phase).worker w = phase := by
  simp [setWorker]

theorem holds_setWorker {w : ω} {phase : WorkerPhase} (hjob : ∀ job, phase.job = some job → (m.worker w).job = some job)
    {place : JobPlace ω} {job : Job} (h : (m.setWorker w phase).Holds place job) : m.Holds place job := by
  cases place with
  | queued i => exact h
  | held w' =>
    change ((m.setWorker w phase).worker w').job = some job at h
    by_cases he : w' = w
    · subst he
      rw [setWorker_self] at h
      exact hjob job h
    · rw [setWorker_of_ne m he] at h
      exact h

/-- A worker goes on with its task, or without one. -/
theorem Delivering.work (h : Delivering m) {w : ω} (phase : WorkerPhase)
    (hjob : ∀ job, phase.job = some job → (m.worker w).job = some job)
    (haddressed : ∀ job response p, phase = .setting job response p → p = job.session) :
    Delivering (m.setWorker w phase) := by
  refine h.frame (fun c => .inl ⟨rfl, fun p _ => SameSlot.refl m p⟩)
    (fun place job hj => ⟨place, holds_setWorker hjob hj⟩) ?_ ?_ rfl rfl
  · intro place place' job job' hj hj'
    exact h.single place place' job job' (holds_setWorker hjob hj) (holds_setWorker hjob hj')
  · intro w' job response p hw'
    by_cases he : w' = w
    · subst he
      rw [setWorker_self] at hw'
      exact haddressed job response p hw'
    · rw [setWorker_of_ne m he] at hw'
      exact h.addressed w' job response p hw'

/-- The place that a task had before the first one went to the worker. -/
def beforePop (w : ω) : JobPlace ω → JobPlace ω
  | .queued i => .queued (i + 1)
  | .held w' => if w' = w then .queued 0 else .held w'

theorem beforePop_injective (w : ω) : Function.Injective (beforePop w) := by
  intro place place' heq
  cases place with
  | queued i =>
    cases place' with
    | queued j =>
      simp only [beforePop, JobPlace.queued.injEq, Nat.add_right_cancel_iff] at heq
      rw [heq]
    | held w' =>
      simp only [beforePop] at heq
      split at heq
      · simp at heq
      · cases heq
  | held w' =>
    cases place' with
    | queued j =>
      simp only [beforePop] at heq
      split at heq
      · simp at heq
      · cases heq
    | held w'' =>
      simp only [beforePop] at heq
      split at heq
      · rename_i hw'
        split at heq
        · rename_i hw''
          rw [hw', hw'']
        · cases heq
      · split at heq
        · cases heq
        · exact heq

theorem holds_pop {w : ω} {queue : Fifo Job} {job j : Job} (hitems : m.queue.items = job :: queue.items)
    {place : JobPlace ω} (hj : ((m.setQueue queue).setWorker w (.processing job)).Holds place j) :
    m.Holds (beforePop w place) j := by
  cases place with
  | queued i =>
    change m.queue.items[i + 1]? = some j
    rw [hitems]
    exact hj
  | held w' =>
    change (((m.setQueue queue).setWorker w (.processing job)).worker w').job = some j at hj
    by_cases he : w' = w
    · subst he
      rw [setWorker_self] at hj
      rw [beforePop, if_pos rfl]
      change m.queue.items[0]? = some j
      rw [hitems]
      exact hj
    · rw [setWorker_of_ne _ he] at hj
      rw [beforePop, if_neg he]
      exact hj

theorem Delivering.pop (h : Delivering m) {w : ω} {queue : Fifo Job} {job : Job} (hw : m.worker w = .idle)
    (hitems : m.queue.items = job :: queue.items) :
    Delivering ((m.setQueue queue).setWorker w (.processing job)) := by
  set m' := (m.setQueue queue).setWorker w (.processing job) with hm'
  have hholds : ∀ place j, m'.Holds place j → m.Holds (beforePop w place) j := fun place j hj => holds_pop hitems hj
  refine h.frame (fun c => .inl ⟨rfl, fun p _ => SameSlot.refl m p⟩) (fun place j hj => ⟨_, hholds place j hj⟩) ?_ ?_
    rfl rfl
  · intro place place' j j' hj hj' hsession
    exact beforePop_injective w (h.single _ _ j j' (hholds place j hj) (hholds place' j' hj') hsession)
  · intro w' j response p hw'
    by_cases he : w' = w
    · subst he
      rw [hm', setWorker_self] at hw'
      cases hw'
    · rw [hm', setWorker_of_ne _ he] at hw'
      exact h.addressed w' j response p hw'

/-- The response goes to the one client thread that waits for this task. -/
theorem Delivering.set (h : Delivering m) (ho : Owned m) {w : ω} {job : Job} {response : Response} {p : Nat}
    (hw : m.worker w = .setting job response p) :
    Delivering ((m.setHeap (m.heap.modify p fun o => o.set job.serial response)).setWorker w (.counting p)) := by
  obtain rfl := h.addressed w job response p hw
  set m' := (m.setHeap (m.heap.modify job.session fun o => o.set job.serial response)).setWorker w
    (.counting job.session) with hm'
  have hheld : m.Holds (.held w) job := by
    change (m.worker w).job = some job
    rw [hw]
    rfl
  have hholds : ∀ place j, m'.Holds place j → m.Holds place j ∧ place ≠ .held w := by
    intro place j hj
    cases place with
    | queued i => exact ⟨hj, by simp⟩
    | held w' =>
      change (m'.worker w').job = some j at hj
      by_cases he : w' = w
      · subst he
        rw [hm', setWorker_self] at hj
        cases hj
      · rw [hm', setWorker_of_ne _ he] at hj
        exact ⟨hj, fun heq => he (JobPlace.held.inj heq)⟩
  obtain ⟨c, hc, _, hlast⟩ := h.job _ job hheld
  have hobject : m'.heap.objects job.session = (m.heap.objects job.session).set job.serial response := by
    simp [hm', setWorker, setHeap]
  refine h.frame (fun c' => ?_) (fun place j hj => ⟨place, (hholds place j hj).1⟩) ?_ ?_ rfl rfl
  · by_cases he : c' = c
    · subst he
      refine .inr ⟨?_, fun place j hj heq => ?_⟩
      · have hok := h.client c'
        rw [hc] at hok
        obtain ⟨serial, hserial, hunsent, _⟩ := hok
        obtain rfl := Option.some.inj (hlast.symm.trans hserial)
        change m'.ClientOk (m.client c')
        rw [hc]
        refine ⟨job.serial, ?_, hunsent, fun _ => ?_⟩
        · rw [hobject]
          exact hlast
        · rw [hobject]
          rfl
      · rw [hc] at heq
        have hsame := (ClientPhase.waiting.inj heq).1
        exact (hholds place j hj).2 (h.single place _ j job (hholds place j hj).1 hheld hsame.symm)
    · refine .inl ⟨rfl, fun q hq => ?_⟩
      have hne : q ≠ job.session := by
        rintro rfl
        exact he (ho.pointer_inj hq (by rw [hc]; rfl))
      exact sameSlot_modify_of_ne hne fun o => o.set job.serial response
  · intro place place' j j' hj hj'
    exact h.single place place' j j' (hholds place j hj).1 (hholds place' j' hj').1
  · intro w' j response' q hw'
    by_cases he : w' = w
    · subst he
      rw [hm', setWorker_self] at hw'
      cases hw'
    · rw [hm', setWorker_of_ne _ he] at hw'
      exact h.addressed w' j response' q hw'

end

/-- `session_create` writes to no session that a client thread has. -/
theorem sameSlot_create (ho : Owned m) (fault : CreateFault) (socketFd : Int) {c : κ} {p : Nat}
    (hp : (m.client c).pointer = some p) : SameSlot m (m.setHeap (m.heap.create fault socketFd).1) p := by
  obtain ⟨i, hi, _⟩ := ho.own c p hp
  rcases Heap.create_cases fault m.heap socketFd with heq | heq | ⟨j, _, heq⟩
  · rw [heq]
    exact SameSlot.refl m p
  · rw [heq]
    exact ⟨rfl, rfl, rfl⟩
  · rw [heq]
    simp [SameSlot, setHeap, Nat.ne_of_lt (ho.below i p hi)]

theorem sameSlot_markInactive (id : UInt64) (p : Nat) : SameSlot m (m.setHeap (m.heap.markInactive id)) p := by
  unfold Heap.markInactive
  split
  · exact sameSlot_modify _ p (fun _ => rfl) (fun _ => rfl) fun _ => rfl
  · exact SameSlot.refl m p

theorem sameSlot_destroy (id : UInt64) (p : Nat) : SameSlot m (m.setHeap (m.heap.destroy id)) p := by
  unfold Heap.destroy
  split
  · rename_i q _
    exact sameSlot_modify (f := SessionObject.free) q p (fun _ => rfl) (fun _ => rfl) fun _ => rfl
  · exact SameSlot.refl m p

section
variable [DecidableEq κ] [DecidableEq ω]

/-- Every step keeps the outstanding tasks with the client threads that wait for them. -/
theorem delivering_step {a : Action κ ω} (h : Delivering m) (ho : Owned m) (hstep : Moves m a m') : Delivering m' := by
  have waits : ∀ {c : κ} {phase : ClientPhase}, m.client c = phase → (∀ p id, phase ≠ .waiting p id) →
      ∀ place job, m.Holds place job → m.client c ≠ .waiting job.session job.task.sessionId := by
    rintro c _ rfl hnot place job _
    exact hnot _ _
  cases hstep with
  | @connect c fault socketFd hc =>
    have hheap := h.heap fun c' p hp => sameSlot_create ho fault socketFd (c := c') hp
    refine hheap.move _ ?_ fun place job _ => by simp [setHeap, hc]
    split
    · trivial
    · trivial
  | found hc hget => exact h.move _ trivial (waits hc (by simp))
  | unfound hc hget => exact h.move _ trivial (waits hc (by simp))
  | reset hc => exact h.reset ho hc
  | pushed hc hcall => exact h.enqueue ho hc (Fifo.items_of_pushed hcall)
  | refused hc => exact h.move _ trivial (waits hc (by simp))
  | @wake c p id hc hready =>
    have hwaiting := h.client c
    rw [hc] at hwaiting
    obtain ⟨serial, hlast, hunsent, hset⟩ := hwaiting
    refine h.move _ ⟨serial, hlast, hunsent, hset hready⟩ fun place job hjob heq => ?_
    obtain ⟨_, _, hnot, _⟩ := h.job place job hjob
    rw [hc] at heq
    rw [← (ClientPhase.waiting.inj heq).1, hready] at hnot
    cases hnot
  | @active c p id hc =>
    have hwoken := h.client c
    rw [hc] at hwoken
    exact h.move (.sending p id) hwoken (waits hc (by simp))
  | inactive hc => exact h.move _ trivial (waits hc (by simp))
  | @send c ok p id hc =>
    cases ok with
    | true => exact h.deliver ho hc fun _ => trivial
    | false => exact h.deliver ho hc fun _ => trivial
  | quit hc => exact h.move _ trivial (waits hc (by simp))
  | @markInactive c p id hc =>
    have hheap := h.heap fun c' q _ => sameSlot_markInactive id q
    exact hheap.move _ trivial fun place job _ => by simp [setHeap, hc]
  | @destroy c id hc =>
    have hheap := h.heap fun c' q _ => sameSlot_destroy id q
    refine hheap.move _ trivial fun place job _ => ?_
    rcases hc with ⟨p, hc⟩ | hc
    · simp [setHeap, hc]
    · simp [setHeap, hc]
  | pop hw hcall => exact h.pop hw (Fifo.items_of_popped hcall)
  | ended hw => exact h.work _ (by simp [WorkerPhase.job]) (by simp)
  | produce hw => exact h.work _ (by simp [WorkerPhase.job, hw]) (by simp)
  | @lookup w response job p hw hget =>
    refine h.work _ (by simp [WorkerPhase.job, hw]) ?_
    rintro _ _ _ ⟨⟩
    -- The id in the task is that of the client thread that waits for it.
    have hheld : m.Holds (.held w) job := by
      change (m.worker w).job = some job
      rw [hw]
      rfl
    obtain ⟨c, hc, _⟩ := h.job _ job hheld
    obtain ⟨i, hfind⟩ := Heap.find_of_get hget
    exact ho.find_own (c := c) (by rw [hc]; rfl) (by rw [hc]; rfl) hfind
  | dropped hw hget => exact h.work _ (by simp [WorkerPhase.job]) (by simp)
  | set hw => exact h.set ho hw
  | @count w p hw =>
    have hheap := h.heap fun c q _ =>
      sameSlot_modify (f := SessionObject.increment) p q (fun _ => rfl) (fun _ => rfl) fun _ => rfl
    exact hheap.work _ (by simp [WorkerPhase.job]) (by simp)
  | report hw => exact h.work _ (by simp [WorkerPhase.job]) (by simp)
  | shutdown =>
    refine h.frame (fun c => .inl ⟨rfl, fun p _ => SameSlot.refl m p⟩)
      (fun place job hj => ⟨place, by cases place <;> exact hj⟩) ?_ h.addressed rfl rfl
    intro place place' job job' hj hj'
    exact h.single place place' job job' (by cases place <;> exact hj) (by cases place' <;> exact hj')

/-- As long as every session is stored under a fresh id, every response that is sent answers the
task that its session pushed last. -/
theorem responses_delivered {acts : List (Action κ ω)} (capacity : Nat)
    (h : Along step FreshId (start capacity) acts) : Always step Delivered (start capacity) acts := by
  have keep : ∀ (m : Machine κ ω) a m', Owned m ∧ Delivering m → FreshId m a → m.step a = some m' →
      Owned m' ∧ Delivering m' := by
    intro m a m' hm hfresh hstep
    have hmoves := step_moves hstep
    exact ⟨owned_step hm.1 hfresh hmoves, delivering_step hm.2 hm.1 hmoves⟩
  exact (Along.always keep ⟨owned_start capacity, delivering_start capacity⟩ h).mono fun m hm => hm.2.delivered

/-- Only `session_create` can break the condition. -/
theorem along_freshId_of_no_connect {acts : List (Action κ ω)}
    (h : ∀ a ∈ acts, ∀ c fault socketFd, a ≠ .connect c fault socketFd) (m : Machine κ ω) :
    Along step FreshId m acts := by
  induction acts generalizing m with
  | nil => trivial
  | cons a acts ih =>
    intro m' _
    refine ⟨?_, ih (fun b hb => h b (List.mem_cons_of_mem a hb)) m'⟩
    cases a with
    | connect c fault socketFd => exact absurd rfl (h _ (List.mem_cons_self ..) c fault socketFd)
    | _ => trivial

end

end Machine

/-- A `LIST` of alice. -/
def listTask : Task := ⟨.list, 0, ascii "alice", [], 0, none⟩

def listResponse : Response := ⟨.success, [], ascii "LIST END\n"⟩

/-- One client thread and one worker, up to the response. -/
def listRun : List (Action (Fin 1) (Fin 1)) :=
  [.connect 0 .none 3, .get 0, .reset 0, .push 0 listTask, .pop 0, .produce 0 listResponse, .lookup 0, .set 0, .wake 0,
    .check 0, .send 0 true]

theorem listRun_freshId : Along Machine.step Machine.FreshId (Machine.start 100) listRun := by
  intro m _
  refine ⟨?_, Machine.along_freshId_of_no_connect (by simp) m⟩
  intro _ i p hp
  cases hp

theorem responses_delivered_list :
    Always Machine.step Machine.Delivered (Machine.start 100) listRun ∧
      (run Machine.step (Machine.start 100) listRun).map (fun m => m.sends.map Sent.response) = some [listResponse] :=
  ⟨Machine.responses_delivered 100 listRun_freshId, by decide +kernel⟩

def failedConnect : Action (Fin 2) (Fin 1) := .connect 1 .mutexInit 4

theorem step_failedConnect {m : Machine (Fin 2) (Fin 1)} (hidle : m.client 1 = .idle) :
    m.step failedConnect = some (m.setHeap (m.heap.setNext (m.heap.nextSessionId + 1))) := by
  have hcreate : m.heap.create .mutexInit 4 = (m.heap.setNext (m.heap.nextSessionId + 1), 0) := by
    unfold Heap.create
    simp only [if_neg (show ¬ (4 : Int) < 0 by decide)]
    simp only [reduceCtorEq, if_false, if_true]
    cases scan maxSessions (fun i => !m.heap.occupied i) maxSessions (hashSessionId m.heap.nextSessionId) <;> rfl
  have hupdate : Function.update m.client 1 .idle = m.client := by rw [← hidle, Function.update_eq_self]
  simp only [failedConnect, Machine.step, hidle, hcreate, if_true]
  rw [Machine.setClient, Machine.setHeap]
  simp only [hupdate]

/-- Failed calls of `session_create` only advance the counter. -/
theorem run_failedConnect {m : Machine (Fin 2) (Fin 1)} (hidle : m.client 1 = .idle) (n : Nat) :
    run Machine.step m (List.replicate n failedConnect) =
      some (m.setHeap (m.heap.setNext (m.heap.nextSessionId + UInt64.ofNat n))) := by
  induction n generalizing m with
  | zero => simp [run, Machine.setHeap, Heap.setNext]
  | succ n ih =>
    have hidle' : (m.setHeap (m.heap.setNext (m.heap.nextSessionId + 1))).client 1 = .idle := hidle
    rw [List.replicate_succ, run, step_failedConnect hidle, Option.bind_some, ih hidle']
    have hadd : m.heap.nextSessionId + 1 + UInt64.ofNat n = m.heap.nextSessionId + UInt64.ofNat (n + 1) := by
      rw [UInt64.ofNat_add, UInt64.add_assoc, UInt64.add_comm 1]
      rfl
    simp only [Machine.setHeap, Heap.setNext, hadd]

/-- The first client thread pushes a task of session 1. -/
def firstTask : List (Action (Fin 2) (Fin 1)) := [.connect 0 .none 3, .get 0, .reset 0, .push 0 listTask]

/-- Session 1 again. -/
def secondTask : List (Action (Fin 2) (Fin 1)) := [.connect 1 .none 4, .get 1, .reset 1, .push 1 listTask]

def afterFirstTask : Machine (Fin 2) (Fin 1) := (run Machine.step (Machine.start 100) firstTask).getD (Machine.start 100)

/-- When the counter has come round, the second client thread gets the id and the session of the
first, which has two tasks outstanding then. -/
theorem two_tasks_in_one_session :
    ¬ Always Machine.step Machine.Delivered (Machine.start 100)
      (firstTask ++ List.replicate (2 ^ 64 - 1) failedConnect ++ secondTask) := by
  intro h
  have hfirst : run Machine.step (Machine.start 100) firstTask = some afterFirstTask := rfl
  set before := afterFirstTask.setHeap
    (afterFirstTask.heap.setNext (afterFirstTask.heap.nextSessionId + UInt64.ofNat (2 ^ 64 - 1))) with hbefore
  have hsecond : (run Machine.step before secondTask).map (fun m => m.queue.items.map Job.session) = some [0, 0] := by
    decide +kernel
  obtain ⟨m, hm, hitems⟩ := Option.map_eq_some_iff.mp hsecond
  have hrun : run Machine.step (Machine.start 100)
      (firstTask ++ List.replicate (2 ^ 64 - 1) failedConnect ++ secondTask) = some m := by
    rw [run_append, run_append, hfirst, Option.bind_some, run_failedConnect rfl, Option.bind_some]
    exact hm
  have hsingle := (h.last hrun).single
  obtain ⟨first, rest, hlist, hfirst, hrest⟩ := List.map_eq_cons_iff.mp hitems
  obtain ⟨second, _, rfl, hsecond, _⟩ := List.map_eq_cons_iff.mp hrest
  have heq := hsingle (.queued 0) (.queued 1) first second (by simp [Machine.Holds, hlist])
    (by simp [Machine.Holds, hlist]) (hfirst.trans hsecond.symm)
  cases heq

end Stash.Delivery
