import Stash.Delivery.Responses

/-! How long a worker may use the session that `session_get` has returned. Until `response_set` the
client thread waits and keeps the session; behind it the client thread may be faster than the two
steps that the worker has left. -/
namespace Stash.Delivery
open Foundation.Fifos Foundation.Runs Sessions Threads

/-- The session that a worker still has a step to perform on. -/
def WorkerPhase.session : WorkerPhase → Option Nat
  | .setting _ _ p | .counting p | .reporting p => some p
  | .idle | .processing _ | .delivering _ _ | .exited => none

namespace Machine
variable {κ ω : Type*}

def SessionsLive (m : Machine κ ω) : Prop :=
  ∀ w p, (m.worker w).session = some p → (m.heap.objects p).destroyed = false

/-- A client thread that destroys its session comes after the workers' steps behind `response_set`. -/
def Finished (m : Machine κ ω) : Action κ ω → Prop
  | .destroy c => ∀ p id, m.client c = .closing p id → m.heap.find id ≠ none →
      ∀ w, m.worker w ≠ .counting p ∧ m.worker w ≠ .reporting p
  | _ => True

/-- A client thread that has not looked its session up. -/
def ClientPhase.Unopened (phase : ClientPhase) (id : UInt64) : Prop := phase = .created id ∨ phase = .unfound id

/-- The sessions of the workers are live, and none of them is one that no client thread has used. -/
structure Lived (m : Machine κ ω) : Prop where
  live : m.SessionsLive
  below : ∀ w p, (m.worker w).session = some p → p < m.heap.allocated
  unused : ∀ c id i p w, ClientPhase.Unopened (m.client c) id → m.heap.sessions i = some p →
    m.heap.sessionId p = id → (m.worker w).session ≠ some p

variable {m m' : Machine κ ω}

theorem lived_start (capacity : Nat) : Lived (start capacity : Machine κ ω) where
  live := by simp [SessionsLive, start, WorkerPhase.session]
  below := by simp [start, WorkerPhase.session]
  unused := by simp [start, WorkerPhase.session]

/-- No worker gets a session, none of theirs is freed and no session is added. -/
theorem Lived.frame (h : Lived m) (hworker : ∀ w p, (m'.worker w).session = some p → (m.worker w).session = some p)
    (hlive : ∀ w p, (m'.worker w).session = some p → (m'.heap.objects p).destroyed = (m.heap.objects p).destroyed)
    (hallocated : m'.heap.allocated = m.heap.allocated) (hid : ∀ p, m'.heap.sessionId p = m.heap.sessionId p)
    (hsessions : ∀ i p, m'.heap.sessions i = some p → m.heap.sessions i = some p)
    (hclient : ∀ c id, ClientPhase.Unopened (m'.client c) id → ClientPhase.Unopened (m.client c) id) : Lived m' where
  live w p hw := (hlive w p hw).trans (h.live w p (hworker w p hw))
  below w p hw := by
    rw [hallocated]
    exact h.below w p (hworker w p hw)
  unused c id i p w hc hi hp hw := by
    rw [hid] at hp
    exact h.unused c id i p w (hclient c id hc) (hsessions i p hi) hp (hworker w p hw)

theorem Lived.modify (h : Lived m) (p : Nat) {f : SessionObject → SessionObject}
    (hid : ∀ o, (f o).session.sessionId = o.session.sessionId) (hlive : ∀ o, (f o).destroyed = o.destroyed) :
    Lived (m.setHeap (m.heap.modify p f)) := by
  have hids : ∀ q, (m.heap.modify p f).sessionId q = m.heap.sessionId q := fun q => Heap.sessionId_modify hid
  have hall : ∀ q, ((m.heap.modify p f).objects q).destroyed = (m.heap.objects q).destroyed :=
    fun q => Heap.destroyed_modify hlive
  exact h.frame (fun _ _ hw => hw) (fun _ q _ => hall q) rfl hids (fun _ _ hi => hi) fun _ _ hc => hc

/-- A worker that has a session to fill has it from a client thread that waits. -/
theorem waiting_of_setting (hd : Delivering m) {w : ω} {job : Job} {response : Response} {p : Nat}
    (hw : m.worker w = .setting job response p) : ∃ c, m.client c = .waiting p job.task.sessionId := by
  obtain rfl := hd.addressed w job response p hw
  have hheld : m.Holds (.held w) job := by
    change (m.worker w).job = some job
    rw [hw]
    rfl
  obtain ⟨c, hc, _⟩ := hd.job _ job hheld
  exact ⟨c, hc⟩

/-- Whatever a client thread destroys, no worker has it when the condition is met. -/
theorem Lived.not_held (h : Lived m) (ho : Owned m) (hd : Delivering m) {c : κ} {id : UInt64} {i q : Nat}
    (hc : (∃ p, m.client c = .closing p id) ∨ m.client c = .unfound id) (hfind : m.heap.find id = some (i, q))
    (hfinished : ∀ p, m.client c = .closing p id → ∀ w, m.worker w ≠ .counting p ∧ m.worker w ≠ .reporting p) (w : ω) :
    (m.worker w).session ≠ some q := by
  obtain ⟨hi, hq, _⟩ := Heap.find_some hfind
  rcases hc with ⟨p, hc⟩ | hc
  · obtain rfl := ho.find_own (c := c) (by rw [hc]; rfl) (by rw [hc]; rfl) hfind
    obtain ⟨hcounting, hreporting⟩ := hfinished q hc w
    intro hw
    cases hphase : m.worker w with
    | setting job response p =>
      rw [hphase] at hw
      obtain rfl := Option.some.inj hw
      -- Its client thread is in `response_wait`, not at `session_destroy`.
      obtain ⟨c', hc'⟩ := waiting_of_setting hd hphase
      have hp' : (m.client c').pointer = some p := by rw [hc']; rfl
      have hp : (m.client c).pointer = some p := by rw [hc]; rfl
      obtain rfl := ho.pointer_inj hp' hp
      rw [hc] at hc'
      cases hc'
    | counting p =>
      rw [hphase] at hw
      obtain rfl := Option.some.inj hw
      exact hcounting hphase
    | reporting p =>
      rw [hphase] at hw
      obtain rfl := Option.some.inj hw
      exact hreporting hphase
    | idle => rw [hphase] at hw; cases hw
    | processing job => rw [hphase] at hw; cases hw
    | delivering job response => rw [hphase] at hw; cases hw
    | exited => rw [hphase] at hw; cases hw
  · exact h.unused c id i q w (.inr hc) hi hq

section
variable [DecidableEq κ]

theorem unopened_setClient {c c' : κ} {phase : ClientPhase} {id : UInt64}
    (hphase : ClientPhase.Unopened phase id → ClientPhase.Unopened (m.client c) id)
    (h : ClientPhase.Unopened ((m.setClient c phase).client c') id) : ClientPhase.Unopened (m.client c') id := by
  by_cases hc : c' = c
  · subst hc
    rw [setClient_self] at h
    exact hphase h
  · rwa [setClient_of_ne m hc] at h

theorem Lived.move (h : Lived m) {c : κ} (phase : ClientPhase)
    (hphase : ∀ id, ClientPhase.Unopened phase id → ClientPhase.Unopened (m.client c) id) :
    Lived (m.setClient c phase) :=
  h.frame (fun _ _ hw => hw) (fun _ _ _ => rfl) rfl (fun _ => rfl) (fun _ _ hi => hi)
    fun _ id hc => unopened_setClient (hphase id) hc

theorem Lived.destroy (h : Lived m) (ho : Owned m) (hd : Delivering m) {c : κ} {id : UInt64}
    (hc : (∃ p, m.client c = .closing p id) ∨ m.client c = .unfound id)
    (hfinished : ∀ p id, m.client c = .closing p id → m.heap.find id ≠ none →
      ∀ w, m.worker w ≠ .counting p ∧ m.worker w ≠ .reporting p) :
    Lived ((m.setHeap (m.heap.destroy id)).setClient c .idle) := by
  have hremoved : Lived (m.setHeap (m.heap.destroy id)) := by
    unfold Heap.destroy
    split
    · rename_i i q hfind
      have hnot := h.not_held ho hd hc hfind fun p hp => hfinished p id hp (by simp [hfind])
      have hids : ∀ p, (m.heap.remove i q).sessionId p = m.heap.sessionId p := fun _ => Heap.sessionId_remove
      refine h.frame (fun _ _ hw => hw) (fun w p hw => ?_) rfl hids (fun j p hj => ?_) fun _ _ hc => hc
      · have hne : p ≠ q := by
          rintro rfl
          exact hnot w hw
        simp [setHeap, hne]
      · exact (Heap.sessions_remove.mp hj).2
    · exact h
  exact hremoved.move .idle fun id' hid' => by simp [ClientPhase.Unopened] at hid'

/-- A new session is one that no worker has. -/
theorem Lived.connect (h : Lived m) {c : κ} (fault : CreateFault) (socketFd : Int)
    (hidle : m.client c = .idle)
    (hfresh : (m.heap.create fault socketFd).2 ≠ 0 →
      ∀ i p, m.heap.sessions i = some p → m.heap.sessionId p ≠ m.heap.nextSessionId) :
    Lived ((m.setHeap (m.heap.create fault socketFd).1).setClient c
      (if (m.heap.create fault socketFd).2 = 0 then .idle else .created (m.heap.create fault socketFd).2)) := by
  have hnone : ∀ id', ClientPhase.Unopened .idle id' → ClientPhase.Unopened (m.client c) id' := by
    intro id' hid'
    rw [hidle]
    exact hid'
  rcases Heap.create_cases fault m.heap socketFd with heq | heq | ⟨i, hfree, heq⟩
  · rw [heq]
    exact h.move .idle hnone
  · rw [heq]
    exact (h.move .idle hnone).frame (fun _ _ hw => hw) (fun _ _ _ => rfl) rfl (fun _ => rfl) (fun _ _ hi => hi)
      fun _ _ hc => hc
  · rw [heq] at hfresh ⊢
    have hne : ∀ w p, (m.worker w).session = some p → p ≠ (m.heap.setNext (m.heap.nextSessionId + 1)).allocated :=
      fun w p hw => Nat.ne_of_lt (h.below w p hw)
    refine ⟨fun w p hw => ?_, fun w p hw => Nat.lt_succ_of_lt (h.below w p hw), ?_⟩
    · rw [setClient, setHeap, Heap.objects_store (hne w p hw)]
      exact h.live w p hw
    · intro c' id' j p w hc' hj hp hw
      have hold : m.heap.sessions j = some p := by
        rcases Heap.sessions_store.mp hj with ⟨_, hnew⟩ | ⟨_, hold⟩
        · exact absurd hnew (hne w p hw)
        · exact hold
      have hpid : m.heap.sessionId p = id' := (Heap.sessionId_store (hne w p hw)).symm.trans hp
      by_cases hcc : c' = c
      · subst hcc
        rw [setClient_self] at hc'
        split at hc'
        · simp [ClientPhase.Unopened] at hc'
        · rename_i hz
          have hid' : m.heap.nextSessionId = id' := by simpa [ClientPhase.Unopened] using hc'
          exact hfresh hz j p hold (hpid.trans hid'.symm)
      · rw [setClient_of_ne _ hcc] at hc'
        exact h.unused c' id' j p w hc' hold hpid hw

end

section
variable [DecidableEq ω]

theorem Lived.work (h : Lived m) {w : ω} (phase : WorkerPhase)
    (hphase : ∀ p, phase.session = some p → (m.worker w).session = some p) : Lived (m.setWorker w phase) := by
  refine h.frame (fun w' p hw' => ?_) (fun _ _ _ => rfl) rfl (fun _ => rfl) (fun _ _ hi => hi) fun _ _ hc => hc
  by_cases he : w' = w
  · subst he
    rw [setWorker_self] at hw'
    exact hphase p hw'
  · rwa [setWorker_of_ne m he] at hw'

/-- The session that `session_get` returns belongs to the client thread that waits. -/
theorem Lived.lookup (h : Lived m) (ho : Owned m) {w : ω} {job : Job} {response : Response} {p : Nat}
    (hw : m.worker w = .delivering job response) (hd : Delivering (m.setWorker w (.setting job response p))) :
    Lived (m.setWorker w (.setting job response p)) := by
  obtain ⟨c, hc⟩ := waiting_of_setting hd (setWorker_self m w _)
  change m.client c = .waiting p job.task.sessionId at hc
  obtain ⟨i, hi, hown⟩ := ho.own c p (by rw [hc]; rfl)
  have hsession : ∀ w' q, ((m.setWorker w (.setting job response p)).worker w').session = some q →
      (m.worker w').session = some q ∨ q = p := by
    intro w' q hw'
    by_cases he : w' = w
    · subst he
      rw [setWorker_self] at hw'
      exact .inr (Option.some.inj hw').symm
    · rw [setWorker_of_ne m he] at hw'
      exact .inl hw'
  refine ⟨fun w' q hw' => ?_, fun w' q hw' => ?_, fun c' id' j q w' hc' hj hq hw' => ?_⟩
  · rcases hsession w' q hw' with hold | rfl
    · exact h.live w' q hold
    · exact ho.live i q hi
  · rcases hsession w' q hw' with hold | rfl
    · exact h.below w' q hold
    · exact ho.below i q hi
  · rcases hsession w' q hw' with hold | rfl
    · exact h.unused c' id' j q w' hc' hj hq hold
    · -- The client thread that waits would be one that has not opened its session.
      change ClientPhase.Unopened (m.client c') id' at hc'
      change m.heap.sessionId q = id' at hq
      have hids : (m.client c').ids = some id' := by
        rcases hc' with hc' | hc'
        · rw [hc']
          rfl
        · rw [hc']
          rfl
      obtain rfl := ho.distinct c' c id' hids (by rw [hown, hq])
      rw [hc] at hc'
      simp [ClientPhase.Unopened] at hc'

end

section
variable [DecidableEq κ] [DecidableEq ω]

theorem lived_step {a : Action κ ω} (h : Lived m) (ho : Owned m) (hd : Delivering m) (hd' : Delivering m')
    (hfresh : FreshId m a) (hfinished : Finished m a) (hstep : Moves m a m') : Lived m' := by
  have moved : ∀ {c : κ} {phase : ClientPhase}, (∀ id, ¬ ClientPhase.Unopened phase id) → Lived (m.setClient c phase) :=
    fun hphase => h.move _ fun id hid => absurd hid (hphase id)
  cases hstep with
  | connect hc => exact h.connect _ _ hc hfresh
  | found hc hget => exact moved (by simp [ClientPhase.Unopened])
  | @unfound c id hc hget =>
    refine h.move _ fun id' hid' => .inl ?_
    have heq : id = id' := by simpa [ClientPhase.Unopened] using hid'
    rw [hc, heq]
  | @reset c p id hc =>
    have hmodified := h.modify p (f := SessionObject.reset) (fun _ => rfl) fun _ => rfl
    exact hmodified.move _ fun id' hid' => by simp [ClientPhase.Unopened] at hid'
  | @pushed c task p id queue job hc hcall =>
    have hmodified := h.modify p (f := fun o => o.push m.pushed) (fun _ => rfl) fun _ => rfl
    have hmoved := hmodified.move (c := c) (.waiting p id) fun id' hid' => by simp [ClientPhase.Unopened] at hid'
    exact hmoved.frame (fun _ _ hw => hw) (fun _ _ _ => rfl) rfl (fun _ => rfl) (fun _ _ hi => hi) fun _ _ hc => hc
  | refused hc => exact moved (by simp [ClientPhase.Unopened])
  | wake hc hready => exact moved (by simp [ClientPhase.Unopened])
  | active hc => exact moved (by simp [ClientPhase.Unopened])
  | inactive hc => exact moved (by simp [ClientPhase.Unopened])
  | @send c ok p id hc =>
    have hmoved : Lived (m.setClient c (if ok then .reading p id else .leaving p id)) := by
      refine moved fun id' hid' => ?_
      cases ok with
      | true => simp [ClientPhase.Unopened] at hid'
      | false => simp [ClientPhase.Unopened] at hid'
    exact hmoved.frame (fun _ _ hw => hw) (fun _ _ _ => rfl) rfl (fun _ => rfl) (fun _ _ hi => hi) fun _ _ hc => hc
  | quit hc => exact moved (by simp [ClientPhase.Unopened])
  | @markInactive c p id hc =>
    have hmarked : Lived (m.setHeap (m.heap.markInactive id)) := by
      unfold Heap.markInactive
      split
      · exact h.modify _ (fun _ => rfl) fun _ => rfl
      · exact h
    exact hmarked.move _ fun id' hid' => by simp [ClientPhase.Unopened] at hid'
  | destroy hc => exact h.destroy ho hd hc hfinished
  | @pop w queue job hw hcall =>
    have hworked := h.work (w := w) (.processing job) (by simp [WorkerPhase.session])
    exact hworked.frame (fun _ _ hw => hw) (fun _ _ _ => rfl) rfl (fun _ => rfl) (fun _ _ hi => hi) fun _ _ hc => hc
  | ended hw => exact h.work _ (by simp [WorkerPhase.session])
  | produce hw => exact h.work _ (by simp [WorkerPhase.session])
  | lookup hw hget => exact h.lookup ho hw hd'
  | dropped hw hget => exact h.work _ (by simp [WorkerPhase.session])
  | @set w response job p hw =>
    have hmodified := h.modify p (f := fun o => o.set job.serial response) (fun _ => rfl) fun _ => rfl
    exact hmodified.work _ (by simp [WorkerPhase.session, setHeap, hw])
  | @count w p hw =>
    have hmodified := h.modify p (f := SessionObject.increment) (fun _ => rfl) fun _ => rfl
    exact hmodified.work _ (by simp [WorkerPhase.session, setHeap, hw])
  | report hw => exact h.work _ (by simp [WorkerPhase.session])
  | shutdown =>
    exact h.frame (fun _ _ hw => hw) (fun _ _ _ => rfl) rfl (fun _ => rfl) (fun _ _ hi => hi) fun _ _ hc => hc

/-- A destroy that comes too early leaves a worker with a freed session. -/
theorem finished_of_live {a : Action κ ω} (ho : Owned m) (hstep : Moves m a m') (hlive : m'.SessionsLive) :
    Finished m a := by
  cases hstep with
  | @destroy c id hc =>
    intro p id' hclosing hfind
    obtain rfl : id' = id := by
      rcases hc with ⟨q, hc⟩ | hc
      · rw [hclosing] at hc
        exact (ClientPhase.closing.inj hc).2
      · rw [hclosing] at hc
        cases hc
    obtain ⟨⟨i, q⟩, hfound⟩ := Option.ne_none_iff_exists'.mp hfind
    obtain rfl := ho.find_own (c := c) (by rw [hclosing]; rfl) (by rw [hclosing]; rfl) hfound
    have hfreed : ((m.heap.destroy id').objects q).destroyed = true := by
      simp [Heap.destroy, hfound, SessionObject.free]
    intro w
    constructor
    · intro hw
      have hkept := hlive w q (by simp [setClient, setHeap, hw, WorkerPhase.session])
      exact absurd (hfreed.symm.trans hkept) (by decide)
    · intro hw
      have hkept := hlive w q (by simp [setClient, setHeap, hw, WorkerPhase.session])
      exact absurd (hfreed.symm.trans hkept) (by decide)
  | _ => trivial

/-- Among the runs in which every session is stored under a fresh id, no worker ever has a
destroyed session exactly in those whose client threads destroy their sessions late enough. -/
theorem sessions_live_iff {acts : List (Action κ ω)} (capacity : Nat)
    (hfresh : Along step FreshId (start capacity) acts) :
    Always step SessionsLive (start capacity) acts ↔ Along step Finished (start capacity) acts := by
  have keep : ∀ (m : Machine κ ω) a m', Owned m ∧ Delivering m ∧ Lived m → FreshId m a → Finished m a →
      m.step a = some m' → Owned m' ∧ Delivering m' ∧ Lived m' := by
    rintro m a m' ⟨ho, hd, hl⟩ hfresh hfinished hstep
    have hmoves := step_moves hstep
    have hd' := delivering_step hd ho hmoves
    exact ⟨owned_step ho hfresh hmoves, hd', lived_step hl ho hd hd' hfresh hfinished hmoves⟩
  have force : ∀ (m : Machine κ ω) a m', Owned m ∧ Delivering m ∧ Lived m → m.step a = some m' → m'.SessionsLive →
      Finished m a :=
    fun m a m' hm hstep hlive => finished_of_live hm.1 (step_moves hstep) hlive
  exact always_iff_along_given keep (fun m hm => hm.2.2.live) force
    ⟨owned_start capacity, delivering_start capacity, lived_start capacity⟩ hfresh

end

end Machine

theorem sessions_live_list :
    Always Machine.step Machine.SessionsLive (Machine.start 100) listRun ↔
      Along Machine.step Machine.Finished (Machine.start 100) listRun :=
  Machine.sessions_live_iff 100 listRun_freshId

/-- The client disconnects as soon as it has its answer, before the worker counts the operation. -/
theorem destroyed_before_count :
    ¬ Always Machine.step Machine.SessionsLive (Machine.start 100)
      (listRun ++ [.quit 0, .markInactive 0, .destroy 0]) := by
  intro h
  have hrun : (run Machine.step (Machine.start 100) (listRun ++ [.quit 0, .markInactive 0, .destroy 0])).map
      (fun m => (m.worker 0, (m.heap.objects 0).destroyed)) = some (.counting 0, true) := by decide +kernel
  obtain ⟨m, hm, hstate⟩ := Option.map_eq_some_iff.mp hrun
  obtain ⟨hworker, hdestroyed⟩ := Prod.mk.inj hstate
  have hlive := h.last hm 0 0 (by rw [hworker]; rfl)
  rw [hdestroyed] at hlive
  cases hlive

end Stash.Delivery
