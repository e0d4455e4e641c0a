import Stash.Delivery.Progress

/-! As long as the probe paths are kept, every session that was created is found by its client
thread, and every client thread that waits has a task on the way or its response ready. -/
namespace Stash.Delivery.Machine
open Foundation.Fifos Sessions Threads
variable {κ ω : Type*} {m m' : Machine κ ω}

/-- A session that is created is active until its client thread has it, and found. -/
structure Found (m : Machine κ ω) : Prop where
  active : ∀ c id i p, m.client c = .created id → m.heap.sessions i = some p → m.heap.sessionId p = id →
    (m.heap.objects p).session.isActive = true
  unfound : ∀ c id, m.client c ≠ .unfound id

theorem found_start (capacity : Nat) : Found (start capacity : Machine κ ω) := ⟨by simp [start], by simp [start]⟩

theorem Found.get (h : Found m) (ht : Tended m) {c : κ} {id : UInt64} (hc : m.client c = .created id) :
    ∃ p, m.heap.get id = some p := by
  obtain ⟨hz, i, p, hi, rfl⟩ := ht.owned.entry c id (by rw [hc]; rfl)
  exact ⟨p, Heap.get_of_chained ht.chained hi hz (fun j q hj hq => ht.owned.ids j i q p hj hi hq (by rwa [hq]))
    (h.active c _ i p hc hi rfl)⟩

theorem Found.frame (h : Found m) (hcreated : ∀ c id, m'.client c = .created id → m.client c = .created id)
    (hunfound : ∀ c id, m'.client c = .unfound id → m.client c = .unfound id)
    (hsessions : ∀ i p, m'.heap.sessions i = some p → m.heap.sessions i = some p)
    (hid : ∀ p, m'.heap.sessionId p = m.heap.sessionId p)
    (hactive : ∀ c i p, m'.client c = .created (m.heap.sessionId p) → m.heap.sessions i = some p →
      (m.heap.objects p).session.isActive = true → (m'.heap.objects p).session.isActive = true) : Found m' where
  active c id i p hc hi hp := by
    have hold := hsessions i p hi
    rw [hid] at hp
    refine hactive c i p (by rwa [hp]) hold (h.active c id i p (hcreated c id hc) hold hp)
  unfound c id hc := h.unfound c id (hunfound c id hc)

theorem Found.modify (h : Found m) (p : Nat) {f : SessionObject → SessionObject}
    (hid : ∀ o, (f o).session.sessionId = o.session.sessionId)
    (hactive : ∀ o, (f o).session.isActive = o.session.isActive) : Found (m.setHeap (m.heap.modify p f)) := by
  refine h.frame (fun _ _ hc => hc) (fun _ _ hc => hc) (fun _ _ hi => hi) (fun _ => Heap.sessionId_modify hid) ?_
  intro c i q _ _ hold
  by_cases he : q = p
  · subst he
    simpa [setHeap, hactive] using hold
  · simpa [setHeap, he] using hold

section
variable [DecidableEq κ]

theorem Found.move (h : Found m) (c : κ) (phase : ClientPhase) (hcreated : ∀ id, phase ≠ .created id)
    (hunfound : ∀ id, phase ≠ .unfound id) : Found (m.setClient c phase) := by
  have hother : ∀ {c' : κ} {phase' : ClientPhase}, phase' ≠ phase → (m.setClient c phase).client c' = phase' →
      m.client c' = phase' := by
    intro c' phase' hne hc'
    by_cases he : c' = c
    · subst he
      rw [setClient_self] at hc'
      exact absurd hc'.symm hne
    · rwa [setClient_of_ne m he] at hc'
  exact h.frame (fun c' id hc' => hother (hcreated id).symm hc') (fun c' id hc' => hother (hunfound id).symm hc')
    (fun _ _ hi => hi) (fun _ => rfl) fun _ _ _ _ _ hold => hold

/-- The session of a client thread changes that has it already, or goes. -/
theorem Found.gone (h : Found m) (ho : Owned m) {c : κ} {id : UInt64} {i q : Nat} {phase : ClientPhase} {heap : Heap}
    (hid : (m.client c).ids = some id) (hcreated : ∀ id, phase ≠ .created id) (hunfound : ∀ id, phase ≠ .unfound id)
    (hfind : m.heap.find id = some (i, q)) (hsessions : ∀ i p, heap.sessions i = some p → m.heap.sessions i = some p)
    (hids : ∀ p, heap.sessionId p = m.heap.sessionId p) (hobjects : ∀ p, p ≠ q → heap.objects p = m.heap.objects p) :
    Found ((m.setHeap heap).setClient c phase) := by
  have hmoved := h.move c phase hcreated hunfound
  refine hmoved.frame (fun _ _ hc => hc) (fun _ _ hc => hc) hsessions hids fun c' j p hc' _ hold => ?_
  have hne : p ≠ q := by
    rintro rfl
    change Function.update m.client c phase c' = .created (m.heap.sessionId p) at hc'
    by_cases he : c' = c
    · subst he
      rw [Function.update_self] at hc'
      exact hcreated _ hc'
    · rw [Function.update_of_ne he] at hc'
      obtain ⟨_, rfl, _⟩ := Heap.find_some hfind
      exact he (ho.distinct c' c _ (by rw [hc']; rfl) hid)
  change (heap.objects p).session.isActive = true
  rw [hobjects p hne]
  exact hold

theorem Found.connect (h : Found m) (ho : Owned m) {c : κ} {fault : CreateFault} {socketFd : Int}
    (hfresh : FreshId m (.connect c fault socketFd : Action κ ω)) :
    Found ((m.setHeap (m.heap.create fault socketFd).1).setClient c
      (if (m.heap.create fault socketFd).2 = 0 then .idle else .created (m.heap.create fault socketFd).2)) := by
  change (m.heap.create fault socketFd).2 ≠ 0 → _ at hfresh
  rcases Heap.create_cases fault m.heap socketFd with heq | heq | ⟨i, _, heq⟩
  · rw [heq]
    exact h.move c .idle (by simp) (by simp)
  · rw [heq]
    have hnext : Found (m.setHeap (m.heap.setNext (m.heap.nextSessionId + 1))) :=
      h.frame (fun _ _ hc => hc) (fun _ _ hc => hc) (fun _ _ hi => hi) (fun _ => rfl) fun _ _ _ _ _ hold => hold
    exact hnext.move c .idle (by simp) (by simp)
  · rw [heq] at hfresh ⊢
    refine ⟨fun c' id j p hc' hj hp => ?_, fun c' id hc' => ?_⟩
    · rcases Heap.sessions_store.mp hj with ⟨_, rfl⟩ | ⟨_, hold⟩
      · simp [setClient, setHeap, newObject, newSession]
      · have hne : p ≠ (m.heap.setNext (m.heap.nextSessionId + 1)).allocated := ho.below_ne hold
        rw [setClient, setHeap, Heap.sessionId_store hne] at hp
        rw [setClient, setHeap, Heap.objects_store hne]
        by_cases he : c' = c
        · subst he
          rw [setClient_self] at hc'
          split at hc'
          · cases hc'
          · rename_i hz
            exact absurd (hp.trans (ClientPhase.created.inj hc').symm) (hfresh hz j p hold)
        · rw [setClient_of_ne _ he] at hc'
          exact h.active c' id j p hc' hold hp
    · by_cases he : c' = c
      · subst he
        rw [setClient_self] at hc'
        split at hc' <;> cases hc'
      · rw [setClient_of_ne _ he] at hc'
        exact h.unfound c' id hc'

variable [DecidableEq ω]

theorem found_step {a : Action κ ω} (h : Found m) (ht : Tended m) (hfresh : FreshId m a) (hstep : Moves m a m') :
    Found m' := by
  have still : ∀ {m'' : Machine κ ω}, Found m'' → m'.heap = m''.heap → m'.client = m''.client → Found m' := by
    intro m'' hm'' hheap hclient
    refine hm''.frame ?_ ?_ ?_ ?_ ?_
    · rw [hclient]; exact fun _ _ hc => hc
    · rw [hclient]; exact fun _ _ hc => hc
    · rw [hheap]; exact fun _ _ hi => hi
    · rw [hheap]; exact fun _ => rfl
    · rw [hheap]; exact fun _ _ _ _ _ hold => hold
  cases hstep with
  | connect hc => exact h.connect ht.owned hfresh
  | found hc hget => exact h.move _ _ (by simp) (by simp)
  | @unfound c id hc hget =>
    obtain ⟨p, hp⟩ := h.get ht hc
    rw [hp] at hget
    cases hget
  | @reset c p id hc =>
    exact (h.modify p (f := SessionObject.reset) (fun _ => rfl) fun _ => rfl).move _ _ (by simp) (by simp)
  | @pushed c task p id queue job hc hcall =>
    have hmodified := h.modify p (f := fun o => o.push m.pushed) (fun _ => rfl) fun _ => rfl
    exact still (hmodified.move c (.waiting p id) (by simp) (by simp)) rfl rfl
  | refused hc => exact h.move _ _ (by simp) (by simp)
  | wake hc hready => exact h.move _ _ (by simp) (by simp)
  | active hc => exact h.move _ _ (by simp) (by simp)
  | inactive hc => exact h.move _ _ (by simp) (by simp)
  | @send c ok p id hc =>
    cases ok with
    | true => exact still (h.move c (.reading p id) (by simp) (by simp)) rfl rfl
    | false => exact still (h.move c (.leaving p id) (by simp) (by simp)) rfl rfl
  | quit hc => exact h.move _ _ (by simp) (by simp)
  | @markInactive c p id hc =>
    unfold Heap.markInactive
    split
    · rename_i i q hfind
      refine h.gone ht.owned (by rw [hc]; rfl) (by simp) (by simp) hfind (fun _ _ hi => hi) (fun _ => ?_) fun p hp => ?_
      · exact Heap.sessionId_modify (f := SessionObject.markInactive) fun _ => rfl
      · simp [hp]
    · exact h.move _ _ (by simp) (by simp)
  | @destroy c id hc =>
    have hid : (m.client c).ids = some id := by
      rcases hc with ⟨p, hc⟩ | hc
      · rw [hc]; rfl
      · rw [hc]; rfl
    unfold Heap.destroy
    split
    · rename_i i q hfind
      refine h.gone ht.owned hid (by simp) (by simp) hfind (fun _ _ hi => (Heap.sessions_remove.mp hi).2)
        (fun _ => Heap.sessionId_remove) fun p hp => ?_
      simp [hp]
    · exact h.move _ _ (by simp) (by simp)
  | @set w response job p hw =>
    exact still (h.modify p (f := fun o => o.set job.serial response) (fun _ => rfl) fun _ => rfl) rfl rfl
  | @count w p hw => exact still (h.modify p (f := SessionObject.increment) (fun _ => rfl) fun _ => rfl) rfl rfl
  | _ => exact still h rfl rfl

/-- A client thread that has begun to wait has just pushed a task. -/
theorem pushed_of_waiting {a : Action κ ω} {c : κ} {p : Nat} {id : UInt64} (hstep : Moves m a m')
    (hafter : m'.client c = .waiting p id) (hbefore : m.client c ≠ .waiting p id) :
    ∃ task, a = .push c task ∧ m'.pushed ≠ m.pushed := by
  have other : ∀ {c' : κ} {phase : ClientPhase}, (Function.update m.client c' phase) c = .waiting p id →
      phase ≠ .waiting p id → False := by
    intro c' phase hc hphase
    by_cases he : c = c'
    · subst he
      rw [Function.update_self] at hc
      exact hphase hc
    · rw [Function.update_of_ne he] at hc
      exact hbefore hc
  cases hstep with
  | @connect c' fault socketFd hc =>
    refine (other hafter ?_).elim
    split <;> simp
  | found hc hget => exact (other hafter (by simp)).elim
  | unfound hc hget => exact (other hafter (by simp)).elim
  | reset hc => exact (other hafter (by simp)).elim
  | @pushed c' task p' id' queue job hc hcall =>
    by_cases he : c = c'
    · subst he
      exact ⟨task, rfl, Nat.succ_ne_self _⟩
    · change Function.update m.client c' _ c = _ at hafter
      rw [Function.update_of_ne he] at hafter
      exact absurd hafter hbefore
  | refused hc => exact (other hafter (by simp)).elim
  | wake hc hready => exact (other hafter (by simp)).elim
  | active hc => exact (other hafter (by simp)).elim
  | inactive hc => exact (other hafter (by simp)).elim
  | @send c' ok p' id' hc =>
    refine (other hafter ?_).elim
    split <;> simp
  | quit hc => exact (other hafter (by simp)).elim
  | markInactive hc => exact (other hafter (by simp)).elim
  | destroy hc => exact (other hafter (by simp)).elim
  | _ => exact absurd hafter hbefore

end

section
variable [Fintype ω]

/-- A client thread whose response is not there has a task on the way, with a worker to bring it nearer. -/
def Awaited (m : Machine κ ω) : Prop :=
  ∀ c p id, m.client c = .waiting p id → (m.heap.objects p).ready = false →
    ∃ serial w n, Outstanding c p id serial w n m

theorem awaited_start (capacity : Nat) : Awaited (start capacity : Machine κ ω) := by simp [Awaited, start]

theorem awaited_step [DecidableEq κ] [DecidableEq ω] [Nonempty ω] {a : Action κ ω} (h : Awaited m) (ht : Tended m)
    (ht' : Tended m') (hstep : m.step a = some m') : Awaited m' := by
  intro c p id hc' hunready
  have hmoves := step_moves hstep
  by_cases hc : m.client c = .waiting p id
  · cases hready : (m.heap.objects p).ready with
    | true =>
      -- A response that is there stays there as long as the client thread waits.
      have hsame := sameSlot_step (c := c) ht hmoves (by rw [hc]; rfl) (fun _ _ => hready) (hc'.trans hc.symm)
      rw [hsame.1, hready] at hunready
      cases hunready
    | false =>
      obtain ⟨serial, w, n, hout⟩ := h c p id hc hready
      rcases outstanding_near ht hstep hout with hanswering | ⟨w', n', _, hout'⟩ | ⟨_, hout'⟩
      · obtain ⟨⟨_, _, hset⟩ | ⟨hn, _⟩ | ⟨hn, _⟩, _⟩ := hanswering
        · rw [hset] at hunready
          cases hunready
        · cases hn
        · cases hn
      · exact ⟨serial, w', n', hout'⟩
      · exact ⟨serial, w, n, hout'⟩
  · obtain ⟨task, rfl, haccepted⟩ := pushed_of_waiting hmoves hc' hc
    obtain ⟨p', id', w, n, _, hout⟩ := outstanding_pushed ht'.drained hstep haccepted
    obtain ⟨rfl, rfl⟩ := ClientPhase.waiting.inj (hout.1.symm.trans hc')
    exact ⟨_, w, n, hout⟩

/-- When all workers have ended, every response that is waited for is there. -/
theorem Awaited.ready (h : Awaited m) (hd : Drained m) [Nonempty ω] (hended : ∀ w, m.worker w = .exited) {c : κ} {p : Nat}
    {id : UInt64} (hc : m.client c = .waiting p id) : (m.heap.objects p).ready = true := by
  by_contra hunready
  obtain ⟨_, w, _, _, place, job, hheld, _⟩ := h c p id hc (Bool.not_eq_true _ ▸ hunready)
  cases place with
  | queued i =>
    change m.queue.items[i]? = some job at hheld
    rw [(hd w (hended w)).2] at hheld
    cases hheld
  | held v =>
    change (m.worker v).job = some job at hheld
    rw [hended v] at hheld
    cases hheld

end

end Stash.Delivery.Machine
