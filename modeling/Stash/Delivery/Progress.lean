import Mathlib.Algebra.BigOperators.Group.Finset.Basic
import Mathlib.Data.Fintype.Basic
import Stash.Delivery.Responses
import Stash.Foundation.FairRuns

/-! Every task that a client thread has pushed is answered in the end, whatever the other client
threads do, as long as no worker and no client thread behind `response_wait` is left out for ever. -/
namespace Stash.Delivery
open Foundation.FairRuns Foundation.Fifos Foundation.LinearProbing Foundation.Runs Sessions Threads

/-- The session that a client thread uses and has not marked inactive. -/
def ClientPhase.inUse : ClientPhase → Option Nat
  | .idle | .created _ | .unfound _ | .closing _ _ => none
  | .reading p _ | .pushing p _ | .waiting p _ | .woken p _ | .sending p _ | .leaving p _ => some p

/-- How many steps a worker has before it, the `pop` that finds the queue shut down included. -/
def WorkerPhase.cost : WorkerPhase → Nat
  | .exited => 0
  | .idle => 1
  | .reporting _ => 2
  | .counting _ => 3
  | .setting _ _ _ => 4
  | .delivering _ _ => 5
  | .processing _ => 6

namespace Action
variable {κ ω : Type*}

def worker : Action κ ω → Option ω
  | .pop w | .produce w _ | .lookup w | .set w | .count w | .report w => some w
  | _ => none

/-- The client thread that comes back from `response_wait`. -/
def answers : Action κ ω → Option κ
  | .wake c | .check c | .send c _ => some c
  | _ => none

/-- The steps that a thread of the server takes of its own accord. -/
def Own : ω ⊕ κ → Action κ ω → Prop
  | .inl w, a => a.worker = some w
  | .inr c, a => a.answers = some c

end Action

/-- Every session can be reached on its probe path. -/
def Heap.Chained (h : Heap) : Prop :=
  ∀ i p, h.sessions i = some p → i < maxSessions ∧
    Reached maxSessions h.occupied (hashSessionId (h.sessionId p)) i

namespace Heap
variable {h h' : Heap} {i p : Nat}

theorem chained_frame (hc : h.Chained) (hsessions : h'.sessions = h.sessions)
    (hid : ∀ p, h'.sessionId p = h.sessionId p) : h'.Chained := by
  have hoccupied : h'.occupied = h.occupied := by
    funext i
    rw [occupied, occupied, hsessions]
  intro i p hp
  rw [hsessions] at hp
  rw [hoccupied, hid]
  exact hc i p hp

theorem chained_modify (hc : h.Chained) {f : SessionObject → SessionObject}
    (hid : ∀ o, (f o).session.sessionId = o.session.sessionId) : (h.modify p f).Chained :=
  chained_frame hc rfl fun _ => sessionId_modify hid

/-- A slot that is emptied lies on no probe path but its own. -/
theorem chained_remove (hc : h.Chained) (hi : i < maxSessions)
    (hbehind : ∀ j q, j ≠ i → h.sessions j = some q → gap maxSessions (hashSessionId (h.sessionId q)) j ≤
      gap maxSessions (hashSessionId (h.sessionId q)) i) : (h.remove i p).Chained := by
  intro j q hq
  obtain ⟨hj, hold⟩ := sessions_remove.mp hq
  obtain ⟨hlt, hreached⟩ := hc j q hold
  rw [sessionId_remove]
  refine ⟨hlt, fun d hd => ?_⟩
  have hne : slot maxSessions (hashSessionId (h.sessionId q)) d ≠ i := by
    rintro rfl
    have hgap := hbehind j q hj hold
    rw [gap_slot (hashSessionId_lt _) (Nat.lt_trans hd (gap_lt (by decide) _))] at hgap
    exact absurd hd (Nat.not_lt.mpr hgap)
  simpa [occupied, hne] using hreached d hd

theorem chained_store (hc : h.Chained) (hbelow : ∀ i p, h.sessions i = some p → p < h.allocated) {o : SessionObject}
    (hi : i < maxSessions) (hpath : Reached maxSessions h.occupied (hashSessionId o.session.sessionId) i) :
    (h.store i o).Chained := by
  have hmore : ∀ j, h.occupied j = true → (h.store i o).occupied j = true := by
    intro j hj
    by_cases hji : j = i
    · simp [occupied, hji]
    · simpa [occupied, hji] using hj
  intro j q hq
  rcases sessions_store.mp hq with ⟨rfl, rfl⟩ | ⟨_, hold⟩
  · rw [sessionId_stored]
    exact ⟨hi, hpath.mono hmore⟩
  · obtain ⟨hlt, hreached⟩ := hc j q hold
    rw [sessionId_store (Nat.ne_of_lt (hbelow j q hold))]
    exact ⟨hlt, hreached.mono hmore⟩

/-- `session_create` stores at the end of the probe path. -/
theorem chained_create (hc : h.Chained) (hbelow : ∀ i p, h.sessions i = some p → p < h.allocated)
    (fault : CreateFault) (socketFd : Int) : (h.create fault socketFd).1.Chained := by
  have hnext : (h.setNext (h.nextSessionId + 1)).Chained := chained_frame hc rfl fun _ => rfl
  unfold create
  split
  · exact hc
  · split
    · exact hc
    · simp only
      cases hscan : scan maxSessions (fun i => !h.occupied i) maxSessions (hashSessionId h.nextSessionId) with
      | none => exact hnext
      | some i =>
        simp only
        split
        · exact hnext
        · split
          · exact hnext
          · obtain ⟨hi, _, hbefore⟩ := (scan_eq_some (hashSessionId_lt _)).mp hscan
            exact chained_store hnext hbelow hi fun d hd => Bool.not_inj (hbefore d hd)

theorem isActive_of_get {id : UInt64} (hg : h.get id = some p) : (h.objects p).session.isActive = true := by
  unfold get at hg
  split at hg
  · split at hg
    · rename_i hactive
      obtain rfl := Option.some.inj hg
      exact hactive
    · cases hg
  · cases hg

/-- An active session of the table is what `session_get` returns for its id. -/
theorem get_of_chained (hc : h.Chained) (hi : h.sessions i = some p) (hz : h.sessionId p ≠ 0)
    (hunique : ∀ j q, h.sessions j = some q → h.sessionId q = h.sessionId p → j = i)
    (hactive : (h.objects p).session.isActive = true) : h.get (h.sessionId p) = some p := by
  obtain ⟨hlt, hreached⟩ := hc i p hi
  have hscan : scan maxSessions (fun j => !h.occupied j || h.holds (h.sessionId p) j) maxSessions
      (hashSessionId (h.sessionId p)) = some i := by
    refine scan_eq_some_of_reached (hashSessionId_lt _) hlt (by simp [holds, hi]) (fun j _ _ hit => ?_) hreached
    cases hq : h.sessions j with
    | none => simp [holds, hq] at hit
    | some q => exact hunique j q hq (by simpa [holds, hq] using hit)
  simp [get, find, hz, hscan, hi, hactive]

end Heap

theorem ClientPhase.pointer_of_inUse {phase : ClientPhase} {p : Nat} (h : phase.inUse = some p) : phase.pointer = some p := by
  cases phase <;> simp_all [inUse, pointer]

namespace Machine
variable {κ ω : Type*}

/-- A session is destroyed whose slot no other session is stored behind. -/
def KeepsChain (m : Machine κ ω) : Action κ ω → Prop
  | .destroy c => ∀ id i q, (m.client c).ids = some id → m.heap.find id = some (i, q) →
      ∀ j p, j ≠ i → m.heap.sessions j = some p → gap maxSessions (hashSessionId (m.heap.sessionId p)) j ≤
        gap maxSessions (hashSessionId (m.heap.sessionId p)) i
  | _ => True

/-- Sessions in use are active. -/
def Active (m : Machine κ ω) : Prop :=
  ∀ c p, (m.client c).inUse = some p → (m.heap.objects p).session.isActive = true

/-- A worker that has ended has found the queue shut down and empty. -/
def Drained (m : Machine κ ω) : Prop := ∀ w, m.worker w = .exited → m.queue.shutdown = true ∧ m.queue.items = []

variable {m m' : Machine κ ω}

theorem chained_start (capacity : Nat) : (start capacity : Machine κ ω).heap.Chained := by simp [Heap.Chained, start]

theorem active_start (capacity : Nat) : Active (start capacity : Machine κ ω) := by simp [Active, start, ClientPhase.inUse]

theorem drained_start (capacity : Nat) : Drained (start capacity : Machine κ ω) := by simp [Drained, start]

/-- The session that a client thread finds by its id is no other thread's. -/
theorem Owned.find_other (h : Owned m) {c c' : κ} {id : UInt64} {i p q : Nat} (hid : (m.client c).ids = some id)
    (hfind : m.heap.find id = some (i, q)) (hp : (m.client c').pointer = some p) (hc : c' ≠ c) : p ≠ q := by
  rintro rfl
  obtain ⟨_, _, hown⟩ := h.own c' p hp
  obtain ⟨_, rfl, _⟩ := Heap.find_some hfind
  exact hc (h.distinct c' c _ hown hid)

theorem Active.frame (h : Active m) (hkept : ∀ c p, (m'.client c).inUse = some p →
    (m.client c).inUse = some p ∧ ((m.heap.objects p).session.isActive = true → (m'.heap.objects p).session.isActive = true)) :
    Active m' := by
  intro c p hp
  obtain ⟨hold, hactive⟩ := hkept c p hp
  exact hactive (h c p hold)

theorem Active.modify (h : Active m) (p : Nat) {f : SessionObject → SessionObject}
    (hactive : ∀ o, (f o).session.isActive = o.session.isActive) : Active (m.setHeap (m.heap.modify p f)) := by
  refine h.frame fun c q hq => ⟨hq, fun hold => ?_⟩
  by_cases he : q = p
  · subst he
    simpa [setHeap, hactive] using hold
  · simpa [setHeap, he] using hold

section
variable [DecidableEq κ]

/-- Only the client thread that marks its session inactive, or destroys it, had it in use. -/
theorem Active.gone (h : Active m) (ho : Owned m) {c : κ} {id : UInt64} {i q : Nat} {phase : ClientPhase}
    (hid : (m.client c).ids = some id) (hfind : m.heap.find id = some (i, q)) (hphase : phase.inUse = none) {heap : Heap}
    (hobjects : ∀ p, p ≠ q → heap.objects p = m.heap.objects p) : Active ((m.setHeap heap).setClient c phase) := by
  refine h.frame fun c' p hp => ?_
  by_cases hc : c' = c
  · subst hc
    rw [setClient_self, hphase] at hp
    cases hp
  · rw [setClient_of_ne _ hc] at hp
    refine ⟨hp, fun hold => ?_⟩
    rw [setClient, setHeap, hobjects p (ho.find_other hid hfind (ClientPhase.pointer_of_inUse hp) hc)]
    exact hold

theorem Active.move (h : Active m) {c : κ} (phase : ClientPhase)
    (hphase : ∀ p, phase.inUse = some p → (m.client c).inUse = some p) : Active (m.setClient c phase) := by
  refine h.frame fun c' p hp => ⟨?_, id⟩
  by_cases hc : c' = c
  · subst hc
    rw [setClient_self] at hp
    exact hphase p hp
  · rwa [setClient_of_ne m hc] at hp

theorem Active.connect (h : Active m) (ho : Owned m) (c : κ) (fault : CreateFault) (socketFd : Int)
    (phase : ClientPhase) (hphase : phase.inUse = none) :
    Active ((m.setHeap (m.heap.create fault socketFd).1).setClient c phase) := by
  have hcreated : Active (m.setHeap (m.heap.create fault socketFd).1) := by
    rcases Heap.create_cases fault m.heap socketFd with heq | heq | ⟨i, _, heq⟩
    · rw [heq]
      exact h
    · rw [heq]
      exact h
    · rw [heq]
      refine h.frame fun c' p hp => ⟨hp, fun hold => ?_⟩
      obtain ⟨j, hj, _⟩ := ho.own c' p (ClientPhase.pointer_of_inUse hp)
      have hne : p ≠ (m.heap.setNext (m.heap.nextSessionId + 1)).allocated := ho.below_ne hj
      rw [setHeap, Heap.objects_store hne]
      exact hold
  exact hcreated.move phase (by simp [hphase])

theorem chained_step [DecidableEq ω] {a : Action κ ω} (h : m.heap.Chained) (ho : Owned m) (hchain : KeepsChain m a)
    (hstep : Moves m a m') : m'.heap.Chained := by
  cases hstep with
  | connect hc => exact Heap.chained_create h ho.below _ _
  | @markInactive c p id hc =>
    change (m.heap.markInactive id).Chained
    unfold Heap.markInactive
    split
    · exact Heap.chained_modify h fun _ => rfl
    · exact h
  | @destroy c id hc =>
    have hid : (m.client c).ids = some id := by
      rcases hc with ⟨p, hc⟩ | hc
      · rw [hc]; rfl
      · rw [hc]; rfl
    change (m.heap.destroy id).Chained
    unfold Heap.destroy
    split
    · rename_i i q hfind
      exact Heap.chained_remove h (h i q (Heap.find_some hfind).1).1 (hchain id i q hid hfind)
    · exact h
  | @reset c p id hc => exact Heap.chained_modify (f := SessionObject.reset) (p := p) h fun _ => rfl
  | @pushed c task p id queue job hc hcall =>
    exact Heap.chained_modify (f := fun o => o.push m.pushed) (p := p) h fun _ => rfl
  | @set w response job p hw =>
    exact Heap.chained_modify (f := fun o => o.set job.serial response) (p := p) h fun _ => rfl
  | @count w p hw => exact Heap.chained_modify (f := SessionObject.increment) (p := p) h fun _ => rfl
  | _ => exact h

theorem active_step [DecidableEq ω] {a : Action κ ω} (h : Active m) (ho : Owned m) (hstep : Moves m a m') : Active m' := by
  have still : ∀ {m'' : Machine κ ω}, Active m'' → m'.heap = m''.heap → m'.client = m''.client → Active m' := by
    intro m'' hm'' hheap hclient
    refine hm''.frame fun c p hp => ?_
    rw [hclient] at hp
    rw [hheap]
    exact ⟨hp, id⟩
  cases hstep with
  | connect hc =>
    refine h.connect ho _ _ _ _ ?_
    split <;> rfl
  | @found c id p hc hget =>
    intro c' q hq
    by_cases he : c' = c
    · subst he
      rw [setClient_self] at hq
      obtain rfl := Option.some.inj hq
      exact Heap.isActive_of_get hget
    · rw [setClient_of_ne m he] at hq
      exact h c' q hq
  | unfound hc hget => exact h.move _ (by simp [ClientPhase.inUse])
  | @reset c p id hc =>
    have hmodified := h.modify p (f := SessionObject.reset) fun _ => rfl
    exact hmodified.move _ (by simp [ClientPhase.inUse, setHeap, hc])
  | @pushed c task p id queue job hc hcall =>
    have hmodified := h.modify p (f := fun o => o.push m.pushed) fun _ => rfl
    have hmoved := hmodified.move (c := c) (.waiting p id) (by simp [ClientPhase.inUse, setHeap, hc])
    exact still hmoved rfl rfl
  | refused hc => exact h.move _ (by simp [ClientPhase.inUse, hc])
  | wake hc hready => exact h.move _ (by simp [ClientPhase.inUse, hc])
  | active hc => exact h.move _ (by simp [ClientPhase.inUse, hc])
  | inactive hc => exact h.move _ (by simp [ClientPhase.inUse])
  | @send c ok p id hc =>
    cases ok with
    | true => exact still (h.move (c := c) (.reading p id) (by simp [ClientPhase.inUse, hc])) rfl rfl
    | false => exact still (h.move (c := c) (.leaving p id) (by simp [ClientPhase.inUse, hc])) rfl rfl
  | quit hc => exact h.move _ (by simp [ClientPhase.inUse, hc])
  | @markInactive c p id hc =>
    unfold Heap.markInactive
    split
    · rename_i i q hfind
      refine h.gone ho (by rw [hc]; rfl) hfind rfl fun p hp => ?_
      simp [hp]
    · exact h.move _ (by simp [ClientPhase.inUse])
  | @destroy c id hc =>
    have hid : (m.client c).ids = some id := by
      rcases hc with ⟨p, hc⟩ | hc
      · rw [hc]; rfl
      · rw [hc]; rfl
    unfold Heap.destroy
    split
    · rename_i i q hfind
      refine h.gone ho hid hfind rfl fun p hp => ?_
      simp [hp]
    · exact h.move _ (by simp [ClientPhase.inUse])
  | @set w response job p hw =>
    exact still (h.modify p (f := fun o => o.set job.serial response) fun _ => rfl) rfl rfl
  | @count w p hw => exact still (h.modify p (f := SessionObject.increment) fun _ => rfl) rfl rfl
  | _ => exact still h rfl rfl

end

section
variable [DecidableEq ω]

theorem Drained.work (h : Drained m) {w : ω} {phase : WorkerPhase} (hphase : phase ≠ .exited) :
    Drained (m.setWorker w phase) := by
  intro w' hw'
  by_cases he : w' = w
  · subst he
    rw [setWorker_self] at hw'
    exact absurd hw' hphase
  · rw [setWorker_of_ne m he] at hw'
    exact h w' hw'

variable [DecidableEq κ]

/-- A worker ends on the queue that is shut down and empty. -/
theorem queue_of_ended {w : ω} (hw : m.worker w = .idle) (hstep : m.step (.pop w) = some m')
    (hended : m'.worker w = .exited) : m.queue.shutdown = true ∧ m.queue.items = [] := by
  simp only [step, hw] at hstep
  cases hitems : m.queue.items with
  | cons job rest =>
    simp only [Fifo.call, hitems] at hstep
    obtain rfl := Option.some.inj hstep
    rw [setWorker_self] at hended
    cases hended
  | nil =>
    simp only [Fifo.call, hitems] at hstep
    by_cases hshut : m.queue.shutdown = true
    · exact ⟨hshut, rfl⟩
    · simp [hshut] at hstep

theorem drained_step {a : Action κ ω} (h : Drained m) (hstep : m.step a = some m') : Drained m' := by
  cases step_moves hstep with
  | @pushed c task p id queue job hc hcall =>
    intro w hw
    -- A queue that takes a task is not shut down.
    have hopen : m.queue.shutdown = false := (Fifo.open_of_pushed hcall).1
    exact absurd ((h w hw).1.symm.trans hopen) (by decide)
  | @pop w queue job hw hcall =>
    intro w' hw'
    by_cases he : w' = w
    · subst he
      rw [setWorker_self] at hw'
      cases hw'
    · rw [setWorker_of_ne _ he] at hw'
      have hnone := (h w' hw').2
      rw [Fifo.items_of_popped hcall] at hnone
      cases hnone
  | @ended w hw =>
    intro w' hw'
    by_cases he : w' = w
    · subst he
      exact queue_of_ended (m := m) hw hstep hw'
    · rw [setWorker_of_ne m he] at hw'
      exact h w' hw'
  | produce hw => exact h.work (by simp)
  | lookup hw hget => exact h.work (by simp)
  | dropped hw hget => exact h.work (by simp)
  | @set w response job p hw =>
    have hset : Drained (m.setHeap (m.heap.modify p fun o => o.set job.serial response)) := h
    exact hset.work (by simp)
  | @count w p hw =>
    have hcounted : Drained (m.setHeap (m.heap.modify p SessionObject.increment)) := h
    exact hcounted.work (by simp)
  | report hw => exact h.work (by simp)
  | shutdown => exact fun w hw => ⟨rfl, (h w hw).2⟩
  | _ => exact h

end

/-- What the steps keep that meet both conditions. -/
structure Tended (m : Machine κ ω) : Prop where
  owned : Owned m
  delivering : Delivering m
  chained : m.heap.Chained
  active : Active m
  drained : Drained m

theorem tended_start (capacity : Nat) : Tended (start capacity : Machine κ ω) where
  owned := owned_start capacity
  delivering := delivering_start capacity
  chained := chained_start capacity
  active := active_start capacity
  drained := drained_start capacity

theorem tended_step [DecidableEq κ] [DecidableEq ω] {a : Action κ ω} (h : Tended m) (hfresh : FreshId m a)
    (hchain : KeepsChain m a) (hstep : m.step a = some m') : Tended m' := by
  have hmoves := step_moves hstep
  exact ⟨owned_step h.owned hfresh hmoves, delivering_step h.delivering h.owned hmoves,
    chained_step h.chained h.owned hchain hmoves, active_step h.active h.owned hmoves, drained_step h.drained hstep⟩

/-- The session of a client thread that waits for a worker is found. -/
theorem Tended.get_waiting (h : Tended m) {c : κ} {p : Nat} {id : UInt64} (hc : m.client c = .waiting p id) :
    m.heap.get id = some p := by
  obtain ⟨i, hi, hid⟩ := h.owned.own c p (by rw [hc]; rfl)
  have hids : (m.client c).ids = some id := by rw [hc]; rfl
  obtain rfl := Option.some.inj (hids.symm.trans hid)
  obtain ⟨hz, _⟩ := h.owned.entry c _ hids
  refine Heap.get_of_chained h.chained hi hz (fun j q hj hq => ?_) (h.active c p (by rw [hc]; rfl))
  exact h.owned.ids j i q p hj hi hq (by rwa [hq])

section Rank
variable [Fintype ω]

/-- The steps of all workers together. -/
def load (m : Machine κ ω) : Nat := ∑ w, (m.worker w).cost

/-- How far a task is from its response: one in the queue has those before it in front of it. -/
def distance (m : Machine κ ω) : JobPlace ω → Nat
  | .queued i => 7 * (i + 1) + m.load
  | .held w => (m.worker w).cost

theorem load_setWorker [DecidableEq ω] (m : Machine κ ω) (w : ω) (phase : WorkerPhase) :
    (m.setWorker w phase).load + (m.worker w).cost = m.load + phase.cost := by
  have hsplit : ∀ f : ω → WorkerPhase, ∑ v, (f v).cost = (f w).cost + ∑ v ∈ Finset.univ.erase w, (f v).cost :=
    fun f => (Finset.add_sum_erase _ _ (Finset.mem_univ w)).symm
  have hrest : ∑ v ∈ Finset.univ.erase w, ((m.setWorker w phase).worker v).cost =
      ∑ v ∈ Finset.univ.erase w, (m.worker v).cost :=
    Finset.sum_congr rfl fun v hv => by rw [setWorker_of_ne m (Finset.ne_of_mem_erase hv)]
  rw [load, load, hsplit, hsplit m.worker, hrest, setWorker_self]
  omega

/-- The workers of which a step brings the task nearer to its response. -/
def Tends (m : Machine κ ω) : JobPlace ω → ω → Prop
  | .queued _, w => m.worker w ≠ .exited
  | .held w', w => w = w'

/-- The client thread waits for a task that is `n` away from its response and needs `w` to move. -/
def Outstanding (c : κ) (p : Nat) (id : UInt64) (serial : Nat) (w : ω) (n : Nat) (m : Machine κ ω) : Prop :=
  m.client c = .waiting p id ∧ ∃ place job, m.Holds place job ∧ job.session = p ∧ job.serial = serial ∧
    m.Tends place w ∧ m.distance place = n

end Rank

/-- The response to the task is there, and the client thread has `n` steps to take with it. -/
def Answering (c : κ) (p : Nat) (id : UInt64) (serial n : Nat) (m : Machine κ ω) : Prop :=
  ((n = 3 ∧ m.client c = .waiting p id ∧ (m.heap.objects p).ready = true) ∨
    (n = 2 ∧ m.client c = .woken p id) ∨ (n = 1 ∧ m.client c = .sending p id)) ∧
    (m.heap.objects p).producedBy = some serial ∧ (m.heap.objects p).lastPushed = some serial

theorem answering_pointer {c : κ} {p serial n : Nat} {id : UInt64} (ha : Answering c p id serial n m) : (m.client c).pointer = some p := by
  obtain ⟨⟨_, hc, _⟩ | ⟨_, hc⟩ | ⟨_, hc⟩, _⟩ := ha
  · rw [hc]; rfl
  · rw [hc]; rfl
  · rw [hc]; rfl

/-- The response to the task has gone to the client. -/
def Answered (p serial : Nat) (m : Machine κ ω) : Prop :=
  ∃ response, (⟨p, some serial, some serial, response⟩ : Sent) ∈ m.sends

section
variable [DecidableEq κ] [DecidableEq ω] {c : κ} {p serial n : Nat} {id : UInt64} {a : Action κ ω}

/-- A client thread from `response_wait` to the send is moved by its own steps only. -/
theorem client_stays (hstep : Moves m a m') (hc : m.client c = .waiting p id ∨ m.client c = .woken p id ∨
    m.client c = .sending p id) : m'.client c = m.client c ∨ a.answers = some c := by
  have moved : ∀ {c' : κ} {before after : ClientPhase}, m.client c' = before →
      before ≠ .waiting p id → before ≠ .woken p id → before ≠ .sending p id →
      (Function.update m.client c' after) c = m.client c := by
    rintro c' _ after rfl hwaiting hwoken hsending
    refine Function.update_of_ne ?_ _ _
    rintro rfl
    rcases hc with hc | hc | hc
    · exact hwaiting hc
    · exact hwoken hc
    · exact hsending hc
  have other : ∀ {c' : κ} {after : ClientPhase}, (Function.update m.client c' after) c = m.client c ∨ some c' = some c := by
    intro c' after
    by_cases he : c = c'
    · exact .inr (by rw [he])
    · exact .inl (Function.update_of_ne he _ _)
  cases hstep with
  | connect hc' => exact .inl (moved hc' (by simp) (by simp) (by simp))
  | found hc' hget => exact .inl (moved hc' (by simp) (by simp) (by simp))
  | unfound hc' hget => exact .inl (moved hc' (by simp) (by simp) (by simp))
  | reset hc' => exact .inl (moved hc' (by simp) (by simp) (by simp))
  | pushed hc' hcall => exact .inl (moved hc' (by simp) (by simp) (by simp))
  | refused hc' => exact .inl (moved hc' (by simp) (by simp) (by simp))
  | wake hc' hready => exact other
  | active hc' => exact other
  | inactive hc' => exact other
  | send hc' => exact other
  | quit hc' => exact .inl (moved hc' (by simp) (by simp) (by simp))
  | markInactive hc' => exact .inl (moved hc' (by simp) (by simp) (by simp))
  | destroy hc' =>
    rcases hc' with ⟨q, hc'⟩ | hc'
    · exact .inl (moved hc' (by simp) (by simp) (by simp))
    · exact .inl (moved hc' (by simp) (by simp) (by simp))
  | _ => exact .inl rfl

/-- A response that is there is not written to before the client thread has sent it. -/
theorem sameSlot_step (h : Tended m) (hstep : Moves m a m') (hp : (m.client c).pointer = some p)
    (hready : ∀ id, m.client c = .waiting p id → (m.heap.objects p).ready = true) (hstays : m'.client c = m.client c) :
    SameSlot m m' p := by
  have other : ∀ {c' : κ} {q : Nat} {before after : ClientPhase}, m.client c' = before → before.pointer = some q →
      after ≠ before → (Function.update m.client c' after) c = m.client c → p ≠ q := by
    rintro c' q _ after rfl hq hafter hkept rfl
    obtain rfl := h.owned.pointer_inj hp hq
    rw [Function.update_self] at hkept
    exact hafter hkept
  cases hstep with
  | connect hc => exact sameSlot_create h.owned _ _ hp
  | @reset c' q id hc => exact sameSlot_modify_of_ne (other hc rfl (by simp) hstays) SessionObject.reset
  | @pushed c' task q id queue job hc hcall =>
    exact sameSlot_modify_of_ne (other hc rfl (by simp) hstays) fun o => o.push m.pushed
  | markInactive hc => exact sameSlot_markInactive _ p
  | destroy hc => exact sameSlot_destroy _ p
  | @set w response job q hw =>
    refine sameSlot_modify_of_ne ?_ fun o => o.set job.serial response
    rintro rfl
    -- The session that a worker fills belongs to a client thread without a response.
    obtain rfl := h.delivering.addressed w job response p hw
    obtain ⟨c', hc', hnot, _⟩ := h.delivering.job (.held w) job (by rw [Holds, hw]; rfl)
    obtain rfl := h.owned.pointer_inj hp (by rw [hc']; rfl)
    rw [hready _ hc'] at hnot
    cases hnot
  | @count w q hw =>
    exact sameSlot_modify (f := SessionObject.increment) q p (fun _ => rfl) (fun _ => rfl) fun _ => rfl
  | _ => exact SameSlot.refl m p

theorem answering_stays (h : Tended m) (hstep : Moves m a m') (ha : Answering c p id serial n m)
    (hstays : m'.client c = m.client c) : Answering c p id serial n m' := by
  have hready : ∀ id, m.client c = .waiting p id → (m.heap.objects p).ready = true := by
    intro id' hc'
    obtain ⟨⟨_, _, hready⟩ | ⟨_, hc⟩ | ⟨_, hc⟩, _⟩ := ha
    · exact hready
    · rw [hc] at hc'
      cases hc'
    · rw [hc] at hc'
      cases hc'
  obtain ⟨hsame, hproduced, hlast⟩ := sameSlot_step h hstep (answering_pointer ha) hready hstays
  unfold Answering
  rw [hstays, hsame, hproduced, hlast]
  exact ha

/-- The client thread wakes, finds its session active and sends. -/
theorem answering_near (h : Tended m) (hstep : m.step a = some m') (ha : Answering c p id serial n m) :
    Answered p serial m' ∨ (∃ n' < n, Answering c p id serial n' m') ∨
      (a.answers ≠ some c ∧ Answering c p id serial n m') := by
  have hmoves := step_moves hstep
  by_cases hown : a.answers = some c
  · obtain ⟨hphase, hproduced, hlast⟩ := ha
    have hself : ∀ {phase : ClientPhase}, (m.setClient c phase).client c = phase := setClient_self m c _
    cases hmoves with
    | @wake c' q id' hc' hready =>
      obtain rfl := Option.some.inj hown
      rcases hphase with ⟨rfl, hc, _⟩ | ⟨_, hc⟩ | ⟨_, hc⟩
      · obtain ⟨rfl, rfl⟩ := ClientPhase.waiting.inj (hc'.symm.trans hc)
        exact .inr (.inl ⟨2, by decide, .inr (.inl ⟨rfl, hself⟩), hproduced, hlast⟩)
      · rw [hc'] at hc; cases hc
      · rw [hc'] at hc; cases hc
    | @active c' q id' hc' =>
      obtain rfl := Option.some.inj hown
      rcases hphase with ⟨_, hc, _⟩ | ⟨rfl, hc⟩ | ⟨_, hc⟩
      · rw [hc'] at hc; cases hc
      · obtain ⟨rfl, rfl⟩ := ClientPhase.woken.inj (hc'.symm.trans hc)
        exact .inr (.inl ⟨1, by decide, .inr (.inr ⟨rfl, hself⟩), hproduced, hlast⟩)
      · rw [hc'] at hc; cases hc
    | @inactive c' q id' hc' =>
      -- The session is in use, so it is active.
      have hactive := h.active c' q (by rw [hc']; rfl)
      simp only [step, hc', hactive, if_true] at hstep
      have hclient := congrArg (fun m => m.client c') (Option.some.inj hstep)
      simp at hclient
    | @send c' ok q id' hc' =>
      obtain rfl := Option.some.inj hown
      rcases hphase with ⟨_, hc, _⟩ | ⟨_, hc⟩ | ⟨rfl, hc⟩
      · rw [hc'] at hc; cases hc
      · rw [hc'] at hc; cases hc
      · obtain ⟨rfl, rfl⟩ := ClientPhase.sending.inj (hc'.symm.trans hc)
        refine .inl ⟨(m.heap.objects q).response, List.mem_append_right _ ?_⟩
        rw [SessionObject.sent, hproduced, hlast]
        exact List.mem_singleton_self _
    | _ => cases hown
  · have hstays : m'.client c = m.client c := by
      have hwhere : m.client c = .waiting p id ∨ m.client c = .woken p id ∨ m.client c = .sending p id := by
        obtain ⟨⟨_, hc, _⟩ | ⟨_, hc⟩ | ⟨_, hc⟩, _⟩ := ha
        · exact .inl hc
        · exact .inr (.inl hc)
        · exact .inr (.inr hc)
      exact (client_stays hmoves hwhere).resolve_right hown
    exact .inr (.inr ⟨hown, answering_stays h hmoves ha hstays⟩)

theorem answering_enabled (ha : Answering c p id serial n m) (hactive : Active m) :
    ∃ a : Action κ ω, a.answers = some c ∧ m.step a ≠ none := by
  obtain ⟨⟨_, hc, hready⟩ | ⟨_, hc⟩ | ⟨_, hc⟩, _⟩ := ha
  · exact ⟨.wake c, rfl, by simp [step, hc, hready]⟩
  · exact ⟨.check c, rfl, by simp [step, hc, hactive c p (by rw [hc]; rfl)]⟩
  · exact ⟨.send c true, rfl, by simp [step, hc]⟩

end

section
variable [Fintype ω] {c : κ} {p serial n : Nat} {id : UInt64} {w : ω}

/-- The workers and the tasks are where they were; new ones stand behind. -/
theorem Outstanding.frame (ho : Outstanding c p id serial w n m) (hclient : m'.client c = m.client c)
    (hworker : m'.worker = m.worker) {behind : List Job} (hitems : m'.queue.items = m.queue.items ++ behind) :
    Outstanding c p id serial w n m' := by
  obtain ⟨hc, place, job, hheld, hsession, hserial, htends, hn⟩ := ho
  refine ⟨hclient.trans hc, place, job, ?_, hsession, hserial, ?_, ?_⟩
  · cases place with
    | queued i =>
      change m'.queue.items[i]? = some job
      rw [hitems, List.getElem?_append_left (List.getElem?_eq_some_iff.mp hheld).1]
      exact hheld
    | held v =>
      change (m'.worker v).job = some job
      rw [hworker]
      exact hheld
  · cases place with
    | queued i =>
      change m'.worker w ≠ .exited
      rw [hworker]
      exact htends
    | held v => exact htends
  · cases place with
    | queued i => simpa [distance, load, hworker] using hn
    | held v => simpa [distance, hworker] using hn

variable [DecidableEq ω]

/-- A worker takes a step with a task of another session, or goes on with this one. -/
theorem Outstanding.work (ho : Outstanding c p id serial w n m) {v : ω} {after : WorkerPhase} (heap : Heap)
    (hcost : after.cost < (m.worker v).cost) (hafter : after ≠ .exited ∨ m.queue.items = [])
    (hjob : ∀ job, (m.worker v).job = some job → job.session = p → after.job = some job) :
    (∃ w' n', n' < n ∧ Outstanding c p id serial w' n' ((m.setHeap heap).setWorker v after)) ∨
      (v ≠ w ∧ Outstanding c p id serial w n ((m.setHeap heap).setWorker v after)) := by
  obtain ⟨hc, place, job, hheld, hsession, hserial, htends, rfl⟩ := ho
  have hload := load_setWorker (m.setHeap heap) v after
  cases place with
  | queued i =>
    refine .inl ⟨w, 7 * (i + 1) + ((m.setHeap heap).setWorker v after).load, ?_, hc, .queued i, job, hheld, hsession,
      hserial, ?_, rfl⟩
    · change ((m.setHeap heap).setWorker v after).load + (m.worker v).cost = m.load + after.cost at hload
      rw [distance]
      omega
    · change ((m.setHeap heap).setWorker v after).worker w ≠ .exited
      by_cases hw : w = v
      · rw [hw, setWorker_self]
        refine hafter.resolve_right fun hitems => ?_
        simp [Holds, hitems] at hheld
      · rw [setWorker_of_ne _ hw]
        exact htends
  | held u =>
    obtain rfl : w = u := htends
    by_cases hw : w = v
    · subst hw
      refine .inl ⟨w, after.cost, hcost, hc, .held w, job, ?_, hsession, hserial, rfl, ?_⟩
      · change (((m.setHeap heap).setWorker w after).worker w).job = some job
        rw [setWorker_self]
        exact hjob job hheld hsession
      · rw [distance, setWorker_self]
    · refine .inr ⟨fun heq => hw heq.symm, hc, .held w, job, ?_, hsession, hserial, rfl, ?_⟩
      · change (((m.setHeap heap).setWorker v after).worker w).job = some job
        rw [setWorker_of_ne _ hw]
        exact hheld
      · rw [distance, setWorker_of_ne _ hw]
        rfl

/-- A worker takes the first task of the queue. -/
theorem Outstanding.pop (ho : Outstanding c p id serial w n m) {v : ω} {queue : Fifo Job} {first : Job}
    (hidle : m.worker v = .idle) (hitems : m.queue.items = first :: queue.items) :
    (∃ w' n', n' < n ∧ Outstanding c p id serial w' n' ((m.setQueue queue).setWorker v (.processing first))) ∨
      (v ≠ w ∧ Outstanding c p id serial w n ((m.setQueue queue).setWorker v (.processing first))) := by
  obtain ⟨hc, place, job, hheld, hsession, hserial, htends, rfl⟩ := ho
  set m' := (m.setQueue queue).setWorker v (.processing first) with hm'
  have hself : m'.worker v = .processing first := setWorker_self _ _ _
  have hother : ∀ u, u ≠ v → m'.worker u = m.worker u := fun u hu => setWorker_of_ne _ hu _
  cases place with
  | queued i =>
    change m.queue.items[i]? = some job at hheld
    rw [hitems] at hheld
    cases i with
    | zero =>
      obtain rfl : first = job := by simpa using hheld
      refine .inl ⟨v, 6, ?_, hc, .held v, first, ?_, hsession, hserial, rfl, ?_⟩
      · simp only [distance]
        omega
      · change (m'.worker v).job = some first
        rw [hself]
        rfl
      · rw [distance, hself]
        rfl
    | succ i =>
      have hload := load_setWorker (m.setQueue queue) v (.processing first)
      change m'.load + (m.worker v).cost = m.load + 6 at hload
      rw [hidle] at hload
      refine .inl ⟨w, 7 * (i + 1) + m'.load, ?_, hc, .queued i, job, hheld, hsession, hserial, ?_, rfl⟩
      · simp only [distance]
        change m'.load + 1 = m.load + 6 at hload
        omega
      · change m'.worker w ≠ .exited
        by_cases hw : w = v
        · rw [hw, hself]
          simp
        · rw [hother w hw]
          exact htends
  | held u =>
    obtain rfl : w = u := htends
    have hw : w ≠ v := by
      rintro rfl
      simp [Holds, hidle, WorkerPhase.job] at hheld
    refine .inr ⟨hw.symm, hc, .held w, job, ?_, hsession, hserial, rfl, ?_⟩
    · change (m'.worker w).job = some job
      rw [hother w hw]
      exact hheld
    · rw [distance, hother w hw]
      rfl

variable [DecidableEq κ] {a : Action κ ω}

theorem outstanding_enabled (ho : Outstanding c p id serial w n m) :
    ∃ a : Action κ ω, a.worker = some w ∧ m.step a ≠ none := by
  obtain ⟨_, place, job, hheld, _, _, htends, _⟩ := ho
  have hbusy : m.worker w = .exited → False := by
    intro hw
    cases place with
    | queued i => exact htends hw
    | held v =>
      obtain rfl : v = w := htends.symm
      simp [Holds, hw, WorkerPhase.job] at hheld
  cases hw : m.worker w with
  | idle =>
    cases place with
    | queued i =>
      refine ⟨.pop w, rfl, ?_⟩
      change m.queue.items[i]? = some job at hheld
      cases hitems : m.queue.items with
      | nil => simp [hitems] at hheld
      | cons first rest => simp [step, hw, Fifo.call, hitems]
    | held v =>
      obtain rfl : v = w := htends.symm
      simp [Holds, hw, WorkerPhase.job] at hheld
  | processing job => exact ⟨.produce w emptyResponse, rfl, by simp [step, hw]⟩
  | delivering job response =>
    refine ⟨.lookup w, rfl, ?_⟩
    cases hget : m.heap.get job.task.sessionId with
    | none => simp [step, hw, hget]
    | some q => simp [step, hw, hget]
  | setting job response q => exact ⟨.set w, rfl, by simp [step, hw]⟩
  | counting q => exact ⟨.count w, rfl, by simp [step, hw]⟩
  | reporting q => exact ⟨.report w, rfl, by simp [step, hw]⟩
  | exited => exact absurd hw hbusy

/-- A task that waits for a worker comes nearer to its response with every step of that worker. -/
theorem outstanding_near (h : Tended m) (hstep : m.step a = some m') (ho : Outstanding c p id serial w n m) :
    Answering c p id serial 3 m' ∨ (∃ w' n', n' < n ∧ Outstanding c p id serial w' n' m') ∨
      (a.worker ≠ some w ∧ Outstanding c p id serial w n m') := by
  have hmoves := step_moves hstep
  have hkept := ho
  obtain ⟨hc, place, job, hheld, hsession, hserial, _⟩ := hkept
  obtain ⟨c', hc', hready, hlast⟩ := h.delivering.job place job hheld
  rw [hsession] at hc' hready hlast
  have hstays : m'.client c = m.client c := by
    refine (client_stays hmoves (.inl hc)).resolve_right fun hown => ?_
    cases hmoves with
    | wake hc'' hset =>
      obtain rfl := Option.some.inj hown
      obtain ⟨rfl, _⟩ := ClientPhase.waiting.inj (hc''.symm.trans hc)
      rw [hready] at hset
      cases hset
    | active hc'' => obtain rfl := Option.some.inj hown; rw [hc] at hc''; cases hc''
    | inactive hc'' => obtain rfl := Option.some.inj hown; rw [hc] at hc''; cases hc''
    | send hc'' => obtain rfl := Option.some.inj hown; rw [hc] at hc''; cases hc''
    | _ => cases hown
  have hothers : ∀ {m'' : Machine κ ω}, m''.client c = m.client c → m''.worker = m.worker → m''.queue.items = m.queue.items →
      Outstanding c p id serial w n m'' := fun hclient hworker hitems =>
        ho.frame hclient hworker (hitems.trans (List.append_nil _).symm)
  have worked : ∀ {v : ω} {after : WorkerPhase} (heap : Heap), a.worker = some v → after.cost < (m.worker v).cost →
      (after ≠ .exited ∨ m.queue.items = []) →
      (∀ job, (m.worker v).job = some job → job.session = p → after.job = some job) →
      (∃ w' n', n' < n ∧ Outstanding c p id serial w' n' ((m.setHeap heap).setWorker v after)) ∨
        (a.worker ≠ some w ∧ Outstanding c p id serial w n ((m.setHeap heap).setWorker v after)) := by
    intro v after heap hv hcost hafter hjob
    rcases ho.work heap hcost hafter hjob with hnear | ⟨hne, hstill⟩
    · exact .inl hnear
    · exact .inr ⟨by rw [hv]; exact fun heq => hne (Option.some.inj heq), hstill⟩
  cases hmoves with
  | @pushed c'' task q id' queue new hc'' hcall =>
    exact .inr (.inr ⟨by simp [Action.worker], ho.frame hstays rfl (Fifo.items_of_pushed hcall)⟩)
  | @pop v queue first hv hcall =>
    rcases ho.pop hv (Fifo.items_of_popped hcall) with hnear | ⟨hne, hstill⟩
    · exact .inr (.inl hnear)
    · exact .inr (.inr ⟨fun heq => hne (Option.some.inj heq), hstill⟩)
  | @ended v hv =>
    have hempty := (queue_of_ended hv hstep (setWorker_self m v _)).2
    exact .inr (worked m.heap rfl (by simp [hv, WorkerPhase.cost]) (.inr hempty) (by simp [hv, WorkerPhase.job]))
  | @produce v response new hv =>
    exact .inr (worked m.heap rfl (by simp [hv, WorkerPhase.cost]) (.inl (by simp)) (by simp [hv, WorkerPhase.job]))
  | @lookup v response new q hv hget =>
    exact .inr (worked m.heap rfl (by simp [hv, WorkerPhase.cost]) (.inl (by simp)) (by simp [hv, WorkerPhase.job]))
  | @dropped v response new hv hget =>
    -- The client thread of the task waits, so its session is found.
    obtain ⟨c'', hc'', _⟩ := h.delivering.job (.held v) new (by rw [Holds, hv]; rfl)
    rw [h.get_waiting hc''] at hget
    cases hget
  | @set v response new q hv =>
    obtain rfl := h.delivering.addressed v new response q hv
    by_cases hsame : new.session = p
    · -- The session has one task outstanding, so this is the one.
      have hnew : m.Holds (.held v) new := by rw [Holds, hv]; rfl
      obtain rfl := h.delivering.single _ _ _ _ hnew hheld (by rw [hsame, hsession])
      obtain rfl : new = job := Option.some.inj (hnew.symm.trans hheld)
      refine .inl ⟨.inl ⟨rfl, hc, ?_⟩, ?_, ?_⟩
      · simp [setWorker, setHeap, hsame, SessionObject.set]
      · simp [setWorker, setHeap, hsame, SessionObject.set, hserial]
      · simp [setWorker, setHeap, hsame, SessionObject.set, hlast, hserial]
    · refine .inr (worked _ rfl (by simp [hv, WorkerPhase.cost]) (.inl (by simp)) fun job' hjob' hsession' => ?_)
      rw [hv] at hjob'
      obtain rfl := Option.some.inj hjob'
      exact absurd hsession' hsame
  | @count v q hv =>
    exact .inr (worked _ rfl (by simp [hv, WorkerPhase.cost]) (.inl (by simp)) (by simp [hv, WorkerPhase.job]))
  | @report v q hv =>
    exact .inr (worked m.heap rfl (by simp [hv, WorkerPhase.cost]) (.inl (by simp)) (by simp [hv, WorkerPhase.job]))
  | _ => exact .inr (.inr ⟨by simp [Action.worker], hothers hstays rfl rfl⟩)

end

/-- Once a task is answered its session has one response to it, the same for ever. -/
theorem Delivering.filter_sends (h : Delivering m) {e : Sent} (he : e ∈ m.sends) :
    m.sends.filter (fun e' => e'.session = e.session ∧ e'.producedBy = e.producedBy) = [e] := by
  obtain ⟨before, after, hsends⟩ := List.append_of_mem he
  have honce := h.once
  rw [hsends] at honce ⊢
  simp only [List.map_append, List.map_cons, List.nodup_append, List.nodup_cons] at honce
  obtain ⟨_, ⟨hafter, _⟩, hbefore⟩ := honce
  have hnone : ∀ e' ∈ before, ¬ (e'.session = e.session ∧ e'.producedBy = e.producedBy) := by
    rintro e' hmem ⟨hsession, hby⟩
    exact hbefore _ (List.mem_map_of_mem hmem) _ (List.mem_cons_self ..) (Prod.ext hsession hby)
  have hnone' : ∀ e' ∈ after, ¬ (e'.session = e.session ∧ e'.producedBy = e.producedBy) := by
    rintro e' hmem ⟨hsession, hby⟩
    exact hafter (List.mem_map.mpr ⟨e', hmem, Prod.ext hsession hby⟩)
  rw [List.filter_append, List.filter_eq_nil_iff.mpr fun e' hmem => by simpa using hnone e' hmem,
    List.filter_cons_of_pos (by simp), List.filter_eq_nil_iff.mpr fun e' hmem => by simpa using hnone' e' hmem]
  rfl

section
variable [DecidableEq κ] [DecidableEq ω]

/-- What was sent stays sent. -/
theorem sends_prefix {a : Action κ ω} (hstep : Moves m a m') : m.sends <+: m'.sends := by
  cases hstep with
  | send hc => exact List.prefix_append _ _
  | _ => exact List.prefix_refl _

/-- The task that has just been pushed needs a worker, and there is one. -/
theorem outstanding_pushed [Fintype ω] [Nonempty ω] (h : Drained m') {c : κ} {task : Task}
    (hstep : m.step (.push c task) = some m') (haccepted : m'.pushed ≠ m.pushed) :
    ∃ p id w n, m.client c = .pushing p id ∧ Outstanding c p id m.pushed w n m' := by
  cases step_moves hstep with
  | @pushed _ _ p id queue job hc hcall =>
    obtain ⟨w⟩ := ‹Nonempty ω›
    have hitems := Fifo.items_of_pushed hcall
    refine ⟨p, id, w, _, hc, ?_, .queued m.queue.items.length, ⟨m.pushed, p, { task with sessionId := id }⟩, ?_, rfl,
      rfl, fun hw => ?_, rfl⟩
    · simp [enqueue]
    · change queue.items[m.queue.items.length]? = _
      rw [hitems]
      simp
    · -- No worker ends before the shutdown.
      exact absurd ((h w hw).1.symm.trans (Fifo.open_of_pushed hcall).2) (by decide)
  | refused hc => exact absurd rfl haccepted

/-- Under a fair scheduler every task that the queue has taken is answered, and answered once. -/
theorem every_task_answered [Fintype ω] [Nonempty ω] {x : Execution (step (κ := κ) (ω := ω))} (capacity : Nat)
    (hstart : x.state 0 = start capacity) (hfair : x.Fair Action.Own)
    (hmeets : ∀ k a, x.act k = some a → FreshId (x.state k) a ∧ KeepsChain (x.state k) a) {k : Nat} {c : κ} {task : Task}
    (hact : x.act k = some (.push c task)) (haccepted : (x.state (k + 1)).pushed ≠ (x.state k).pushed) :
    ∃ p id, (x.state k).client c = .pushing p id ∧ ∃ j > k, ∃ response, ∀ l ≥ j,
      (x.state l).sends.filter (fun e => e.session = p ∧ e.producedBy = some (x.state k).pushed) =
        [⟨p, some (x.state k).pushed, some (x.state k).pushed, response⟩] := by
  have htended : ∀ k, Tended (x.state k) := x.always (P := fun m a => FreshId m a ∧ KeepsChain m a)
    (fun m a m' h hp hstep => tended_step h hp.1 hp.2 hstep) hmeets (hstart ▸ tended_start capacity)
  obtain ⟨p, id, w, n, hc, hout⟩ := outstanding_pushed (htended (k + 1)).drained (x.moves k _ hact) haccepted
  set serial := (x.state k).pushed with hserial
  refine ⟨p, id, hc, ?_⟩
  -- The workers bring the response into the session, ...
  have hset : ∃ j ≥ k + 1, Answering c p id serial 3 (x.state j) := by
    refine hfair.leads Tended (fun i n m => ∃ w, i = .inl w ∧ Outstanding c p id serial w n m)
      htended ?_ ?_ ⟨w, rfl, hout⟩
    · rintro _ n m _ ⟨w, rfl, ho⟩
      exact outstanding_enabled ho
    · rintro _ n m a m' h ⟨w, rfl, ho⟩ hstep
      rcases outstanding_near h hstep ho with hgoal | ⟨w', n', hn, ho'⟩ | ⟨hown, ho'⟩
      · exact .inl hgoal
      · exact .inr (.inl ⟨_, n', hn, w', rfl, ho'⟩)
      · exact .inr (.inr ⟨hown, w, rfl, ho'⟩)
  obtain ⟨j, hj, hanswering⟩ := hset
  -- ... and the client thread sends it.
  have hsent : ∃ l ≥ j, Answered p serial (x.state l) := by
    refine hfair.leads Tended (fun i n m => i = .inr c ∧ Answering c p id serial n m)
      htended ?_ ?_ ⟨rfl, hanswering⟩
    · rintro _ n m h ⟨rfl, ha⟩
      exact answering_enabled ha h.active
    · rintro _ n m a m' h ⟨rfl, ha⟩ hstep
      rcases answering_near h hstep ha with hgoal | ⟨n', hn, ha'⟩ | ⟨hown, ha'⟩
      · exact .inl hgoal
      · exact .inr (.inl ⟨_, n', hn, rfl, ha'⟩)
      · exact .inr (.inr ⟨hown, rfl, ha'⟩)
  obtain ⟨l, hl, response, hmem⟩ := hsent
  refine ⟨l, by omega, response, fun l' hl' => ?_⟩
  have hstill : (⟨p, some serial, some serial, response⟩ : Sent) ∈ (x.state l').sends := by
    obtain ⟨d, rfl⟩ := Nat.exists_eq_add_of_le hl'
    exact (x.mono (R := fun m m' => m.sends <+: m'.sends) (fun _ => List.prefix_refl _)
      (fun h h' => h.trans h') (fun _ _ _ hstep => sends_prefix (step_moves hstep)) l d).subset hmem
  exact (htended l').delivering.filter_sends hstill

/-- A worker that has ended stays ended. -/
theorem exited_step {a : Action κ ω} (hstep : Moves m a m') {w : ω} (hw : m.worker w = .exited) : m'.worker w = .exited := by
  have other : ∀ {v : ω} {before after : WorkerPhase}, m.worker v = before → before ≠ .exited →
      (Function.update m.worker v after) w = .exited := by
    rintro v _ after rfl hbefore
    rw [Function.update_of_ne ?_, hw]
    rintro rfl
    exact hbefore hw
  cases hstep with
  | pop hv hcall => exact other hv (by simp)
  | ended hv => exact other hv (by simp)
  | produce hv => exact other hv (by simp)
  | lookup hv hget => exact other hv (by simp)
  | dropped hv hget => exact other hv (by simp)
  | set hv => exact other hv (by simp)
  | count hv => exact other hv (by simp)
  | report hv => exact other hv (by simp)
  | _ => exact hw

end

section
variable [Fintype ω] {w : ω} {n : Nat}

/-- The queue is shut down, and the steps that the workers have left are counted. -/
def Draining (w : ω) (n : Nat) (m : Machine κ ω) : Prop :=
  m.queue.shutdown = true ∧ m.worker w ≠ .exited ∧ 7 * m.queue.items.length + m.load = n

def AllExited (m : Machine κ ω) : Prop := ∀ w, m.worker w = .exited

/-- With fewer steps left the workers have ended, or one of them has not. -/
theorem exited_or_draining (hshut : m.queue.shutdown = true) (hn : 7 * m.queue.items.length + m.load < n) :
    AllExited m ∨ ∃ w' n', n' < n ∧ Draining w' n' m := by
  by_cases hall : AllExited m
  · exact .inl hall
  · obtain ⟨w', hw'⟩ := not_forall.mp hall
    exact .inr ⟨w', _, hn, hshut, hw', rfl⟩

variable [DecidableEq ω]

theorem Draining.work (hd : Draining w n m) {v : ω} {after : WorkerPhase} (heap : Heap)
    (hcost : after.cost < (m.worker v).cost) : AllExited ((m.setHeap heap).setWorker v after) ∨
      ∃ w' n', n' < n ∧ Draining w' n' ((m.setHeap heap).setWorker v after) := by
  obtain ⟨hshut, _, rfl⟩ := hd
  have hload := load_setWorker (m.setHeap heap) v after
  change ((m.setHeap heap).setWorker v after).load + (m.worker v).cost = m.load + after.cost at hload
  refine exited_or_draining hshut ?_
  change 7 * m.queue.items.length + ((m.setHeap heap).setWorker v after).load < 7 * m.queue.items.length + m.load
  omega

variable [DecidableEq κ] {a : Action κ ω}

theorem draining_enabled (hd : Draining w n m) : ∃ a : Action κ ω, a.worker = some w ∧ m.step a ≠ none := by
  obtain ⟨hshut, hw, _⟩ := hd
  cases hphase : m.worker w with
  | idle =>
    refine ⟨.pop w, rfl, ?_⟩
    cases hitems : m.queue.items with
    | nil => simp [step, hphase, Fifo.call, hitems, hshut]
    | cons first rest => simp [step, hphase, Fifo.call, hitems]
  | processing job => exact ⟨.produce w emptyResponse, rfl, by simp [step, hphase]⟩
  | delivering job response =>
    refine ⟨.lookup w, rfl, ?_⟩
    cases hget : m.heap.get job.task.sessionId with
    | none => simp [step, hphase, hget]
    | some q => simp [step, hphase, hget]
  | setting job response q => exact ⟨.set w, rfl, by simp [step, hphase]⟩
  | counting q => exact ⟨.count w, rfl, by simp [step, hphase]⟩
  | reporting q => exact ⟨.report w, rfl, by simp [step, hphase]⟩
  | exited => exact absurd hphase hw

/-- Behind the shutdown no task is added, and every step of a worker leaves fewer. -/
theorem draining_near (hstep : m.step a = some m') (hd : Draining w n m) :
    AllExited m' ∨ (∃ w' n', n' < n ∧ Draining w' n' m') ∨ (a.worker ≠ some w ∧ Draining w n m') := by
  have worked : ∀ {v : ω} {after : WorkerPhase} (heap : Heap), after.cost < (m.worker v).cost →
      AllExited ((m.setHeap heap).setWorker v after) ∨
        (∃ w' n', n' < n ∧ Draining w' n' ((m.setHeap heap).setWorker v after)) ∨
          (a.worker ≠ some w ∧ Draining w n ((m.setHeap heap).setWorker v after)) :=
    fun heap hcost => (hd.work heap hcost).elim .inl fun hnear => .inr (.inl hnear)
  cases step_moves hstep with
  | pushed hc hcall => exact absurd (hd.1.symm.trans (Fifo.open_of_pushed hcall).1) (by decide)
  | @pop v queue first hv hcall =>
    obtain ⟨hshut, _, rfl⟩ := hd
    have hload := load_setWorker (m.setQueue queue) v (.processing first)
    change ((m.setQueue queue).setWorker v (.processing first)).load + (m.worker v).cost = m.load + 6 at hload
    rw [hv] at hload
    change _ + 1 = m.load + 6 at hload
    have hlength := congrArg List.length (Fifo.items_of_popped hcall)
    rw [List.length_cons] at hlength
    refine (exited_or_draining ((Fifo.shutdown_of_popped hcall).trans hshut) ?_).elim .inl fun hnear => .inr (.inl hnear)
    change 7 * queue.items.length + ((m.setQueue queue).setWorker v (.processing first)).load < _
    omega
  | ended hv => exact worked m.heap (by simp [hv, WorkerPhase.cost])
  | produce hv => exact worked m.heap (by simp [hv, WorkerPhase.cost])
  | lookup hv hget => exact worked m.heap (by simp [hv, WorkerPhase.cost])
  | dropped hv hget => exact worked m.heap (by simp [hv, WorkerPhase.cost])
  | set hv => exact worked _ (by simp [hv, WorkerPhase.cost])
  | count hv => exact worked _ (by simp [hv, WorkerPhase.cost])
  | report hv => exact worked m.heap (by simp [hv, WorkerPhase.cost])
  | shutdown => exact .inr (.inr ⟨by simp [Action.worker], rfl, hd.2⟩)
  | _ => exact .inr (.inr ⟨by simp [Action.worker], hd⟩)

/-- Under a fair scheduler every worker ends behind the shutdown, and no task is left in the queue. -/
theorem workers_end [Nonempty ω] {x : Execution (step (κ := κ) (ω := ω))} (capacity : Nat)
    (hstart : x.state 0 = start capacity) (hfair : x.Fair fun w a => Action.worker a = some w) {k : Nat}
    (hshut : (x.state k).queue.shutdown = true) :
    ∃ j ≥ k, ∀ l ≥ j, (∀ w, (x.state l).worker w = .exited) ∧ (x.state l).queue.items = [] := by
  have hdrained : ∀ k, Drained (x.state k) := x.always (P := fun _ _ => True)
    (fun m a m' h _ hstep => drained_step h hstep) (fun _ _ _ => trivial) (hstart ▸ drained_start capacity)
  have hended : ∃ j ≥ k, AllExited (x.state j) := by
    rcases exited_or_draining hshut (Nat.lt_succ_self _) with hall | ⟨w, n, _, hd⟩
    · exact ⟨k, Nat.le_refl k, hall⟩
    · exact hfair.leads (fun _ => True) Draining (fun _ => trivial)
        (fun w n m _ hd => draining_enabled hd) (fun w n m a m' _ hd hstep => draining_near hstep hd) hd
  obtain ⟨j, hj, hall⟩ := hended
  refine ⟨j, hj, fun l hl => ?_⟩
  obtain ⟨d, rfl⟩ := Nat.exists_eq_add_of_le hl
  have hstill : ∀ w, (x.state (j + d)).worker w = .exited := fun w =>
    x.mono (R := fun m m' => m.worker w = .exited → m'.worker w = .exited) (fun _ hw => hw)
      (fun h h' hw => h' (h hw)) (fun _ _ _ hstep hw => exited_step (step_moves hstep) hw) j d (hall w)
  obtain ⟨w⟩ := ‹Nonempty ω›
  exact ⟨hstill, (hdrained _ w (hstill w)).2⟩

end

end Machine

/-- The `LIST` of alice up to the worker's next `pop`. -/
def answeredRun : List (Action (Fin 1) (Fin 1)) := listRun ++ [.count (Fin.last 0), .report (Fin.last 0)]

theorem answeredRun_end : (run Machine.step (Machine.start 100) answeredRun).map
    (fun m => (m.client 0, m.worker 0, m.queue.items, m.queue.shutdown)) = some (.reading 0 1, .idle, [], false) := by
  decide +kernel

theorem answeredRun_isSome : (run Machine.step (Machine.start 100) answeredRun).isSome := by
  obtain ⟨m, hm, _⟩ := Option.map_eq_some_iff.mp answeredRun_end
  rw [hm]
  rfl

def answeredExecution : Execution (Machine.step (κ := Fin 1) (ω := Fin 1)) :=
  Execution.ofRun Machine.step (Machine.start 100) answeredRun answeredRun_isSome

/-- At the end the worker waits for a task and the client thread for a command. -/
theorem answeredExecution_fair : answeredExecution.Fair Action.Own := by
  obtain ⟨m, hm, hstate⟩ := Option.map_eq_some_iff.mp answeredRun_end
  simp only [Prod.mk.injEq] at hstate
  obtain ⟨hclient, hworker, hitems, hopen⟩ := hstate
  refine Execution.fair_ofRun hm ?_
  rintro (w | c) ⟨a, hown, henabled⟩
  · refine henabled ?_
    obtain rfl := Subsingleton.elim w 0
    cases a <;> simp_all [Action.Own, Action.worker, Machine.step, Fifo.call]
  · refine henabled ?_
    obtain rfl := Subsingleton.elim c 0
    cases a <;> simp_all [Action.Own, Action.answers, Machine.step]

theorem answeredExecution_meets (k : Nat) (a : Action (Fin 1) (Fin 1)) (hact : answeredExecution.act k = some a) :
    Machine.FreshId (answeredExecution.state k) a ∧ Machine.KeepsChain (answeredExecution.state k) a := by
  cases k with
  | zero =>
    obtain rfl := Option.some.inj hact
    refine ⟨?_, trivial⟩
    rintro _ i p ⟨⟩
  | succ k =>
    have hmem := List.mem_of_getElem? (show answeredRun.tail[k]? = some a from hact)
    simp only [answeredRun, listRun, List.cons_append, List.nil_append, List.tail_cons, List.mem_cons, List.not_mem_nil,
      or_false] at hmem
    rcases hmem with rfl | rfl | rfl | rfl | rfl | rfl | rfl | rfl | rfl | rfl | rfl | rfl <;> exact ⟨trivial, trivial⟩

theorem every_task_answered_list : ∃ p id, (answeredExecution.state 3).client 0 = .pushing p id ∧
    ∃ j > 3, ∃ response, ∀ l ≥ j,
      (answeredExecution.state l).sends.filter
          (fun e => e.session = p ∧ e.producedBy = some (answeredExecution.state 3).pushed) =
        [⟨p, some (answeredExecution.state 3).pushed, some (answeredExecution.state 3).pushed, response⟩] :=
  Machine.every_task_answered 100 rfl answeredExecution_fair answeredExecution_meets
    (show answeredExecution.act 3 = some (.push 0 listTask) from rfl) (by decide +kernel)

/-- The shutdown comes while a task is in the queue. -/
def drainingRun : List (Action (Fin 1) (Fin 1)) :=
  listRun.take 4 ++ [.shutdown, .pop (Fin.last 0), .produce (Fin.last 0) listResponse, .lookup (Fin.last 0),
    .set (Fin.last 0), .count (Fin.last 0), .report (Fin.last 0), .pop (Fin.last 0)]

theorem drainingRun_end : (run Machine.step (Machine.start 100) drainingRun).map (fun m => m.worker 0) = some .exited := by
  decide +kernel

theorem drainingRun_isSome : (run Machine.step (Machine.start 100) drainingRun).isSome := by
  obtain ⟨m, hm, _⟩ := Option.map_eq_some_iff.mp drainingRun_end
  rw [hm]
  rfl

def drainingExecution : Execution (Machine.step (κ := Fin 1) (ω := Fin 1)) :=
  Execution.ofRun Machine.step (Machine.start 100) drainingRun drainingRun_isSome

theorem drainingExecution_fair : drainingExecution.Fair fun w a => Action.worker a = some w := by
  obtain ⟨m, hm, hworker⟩ := Option.map_eq_some_iff.mp drainingRun_end
  refine Execution.fair_ofRun hm ?_
  rintro w ⟨a, hown, henabled⟩
  refine henabled ?_
  obtain rfl := Subsingleton.elim w 0
  cases a <;> simp_all [Action.worker, Machine.step]

theorem workers_end_draining : ∃ j ≥ 5, ∀ l ≥ j, (∀ w, (drainingExecution.state l).worker w = .exited) ∧
    (drainingExecution.state l).queue.items = [] :=
  Machine.workers_end 100 rfl drainingExecution_fair (k := 5) (by decide +kernel)

end Stash.Delivery
