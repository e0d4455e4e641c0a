import Stash.Delivery.Responses

/-! Session ids are fresh until the counter comes round. -/
namespace Stash.Delivery.Machine
open Foundation.Runs Sessions Threads
variable {κ ω : Type*} {m m' : Machine κ ω}

/-- The ids of the table are below the counter, which is not zero. -/
structure Numbered (m : Machine κ ω) : Prop where
  positive : 0 < m.heap.nextSessionId.toNat
  below : ∀ i p, m.heap.sessions i = some p → (m.heap.sessionId p).toNat < m.heap.nextSessionId.toNat

/-- The counter has not come round. -/
def Unwrapped (m : Machine κ ω) : Action κ ω → Prop
  | .connect _ _ _ => m.heap.nextSessionId ≠ 0
  | _ => True

theorem numbered_start (capacity : Nat) : Numbered (start capacity : Machine κ ω) where
  positive := Nat.one_pos
  below := by simp [start]

theorem Numbered.fresh (h : Numbered m) (a : Action κ ω) : FreshId m a ∧ Unwrapped m a := by
  cases a with
  | connect c fault socketFd =>
    refine ⟨fun _ i p hp heq => ?_, fun hz => ?_⟩
    · have hlt := h.below i p hp
      rw [heq] at hlt
      exact absurd hlt (Nat.lt_irrefl _)
    · have hpos := h.positive
      rw [hz] at hpos
      exact absurd hpos (by decide)
  | _ => exact ⟨trivial, trivial⟩

/-- The counter stays, and no session is added. -/
theorem Numbered.frame (h : Numbered m) (hnext : m'.heap.nextSessionId = m.heap.nextSessionId)
    (hsessions : ∀ i p, m'.heap.sessions i = some p → m.heap.sessions i = some p)
    (hid : ∀ p, m'.heap.sessionId p = m.heap.sessionId p) : Numbered m' where
  positive := by rw [hnext]; exact h.positive
  below i p hp := by
    rw [hid, hnext]
    exact h.below i p (hsessions i p hp)

theorem toNat_next {next : UInt64} (h : next.toNat < 2 ^ 64 - 1) : (next + 1).toNat = next.toNat + 1 := by
  rw [UInt64.toNat_add]
  exact Nat.mod_eq_of_lt (by simpa using Nat.add_lt_of_lt_sub h)

variable [DecidableEq κ]

theorem Numbered.connect (h : Numbered m) (ho : Owned m) (hlt : m.heap.nextSessionId.toNat < 2 ^ 64 - 1)
    (fault : CreateFault) (socketFd : Int) (c : κ) (phase : ClientPhase) :
    let m' := (m.setHeap (m.heap.create fault socketFd).1).setClient c phase
    Numbered m' ∧ m'.heap.nextSessionId.toNat ≤ m.heap.nextSessionId.toNat + 1 := by
  intro m'
  have hbumped : (m.heap.setNext (m.heap.nextSessionId + 1)).nextSessionId.toNat = m.heap.nextSessionId.toNat + 1 :=
    toNat_next hlt
  rcases Heap.create_cases fault m.heap socketFd with heq | heq | ⟨i, _, heq⟩
  · have hheap : m'.heap = m.heap := congrArg Prod.fst heq
    exact ⟨h.frame (by rw [hheap]) (by rw [hheap]; exact fun _ _ hp => hp) (by rw [hheap]; exact fun _ => rfl),
      by rw [hheap]; exact Nat.le_succ _⟩
  · have hheap : m'.heap = m.heap.setNext (m.heap.nextSessionId + 1) := congrArg Prod.fst heq
    refine ⟨⟨?_, fun j p hp => ?_⟩, ?_⟩
    · rw [hheap, hbumped]
      exact Nat.succ_pos _
    · rw [hheap] at hp ⊢
      rw [hbumped]
      exact Nat.lt_succ_of_lt (h.below j p hp)
    · rw [hheap, hbumped]
  · have hheap : m'.heap = (m.heap.setNext (m.heap.nextSessionId + 1)).store i
        (newObject m.heap.nextSessionId socketFd) := congrArg Prod.fst heq
    have hnext : m'.heap.nextSessionId.toNat = m.heap.nextSessionId.toNat + 1 := by
      rw [hheap]
      exact hbumped
    refine ⟨⟨by rw [hnext]; exact Nat.succ_pos _, fun j p hp => ?_⟩, by rw [hnext]⟩
    rw [hnext]
    rw [hheap] at hp ⊢
    rcases Heap.sessions_store.mp hp with ⟨_, rfl⟩ | ⟨_, hold⟩
    · rw [Heap.sessionId_stored]
      exact Nat.lt_succ_self _
    · have hne : p ≠ (m.heap.setNext (m.heap.nextSessionId + 1)).allocated := ho.below_ne hold
      rw [Heap.sessionId_store hne]
      exact Nat.lt_succ_of_lt (h.below j p hold)

variable [DecidableEq ω]

/-- A step keeps the ids below the counter, which it advances by one at most. -/
theorem numbered_step {a : Action κ ω} (h : Numbered m) (ho : Owned m) (hlt : m.heap.nextSessionId.toNat < 2 ^ 64 - 1)
    (hstep : Moves m a m') : Numbered m' ∧ m'.heap.nextSessionId.toNat ≤ m.heap.nextSessionId.toNat + 1 := by
  have modified : ∀ {m'' : Machine κ ω} (p : Nat) {f : SessionObject → SessionObject},
      (∀ o, (f o).session.sessionId = o.session.sessionId) → m''.heap = m.heap.modify p f →
      Numbered m'' ∧ m''.heap.nextSessionId.toNat ≤ m.heap.nextSessionId.toNat + 1 := by
    intro m'' p f hf hheap
    refine ⟨h.frame (by rw [hheap]; rfl) (by rw [hheap]; exact fun _ _ hp => hp) fun q => ?_, ?_⟩
    · rw [hheap]
      exact Heap.sessionId_modify hf
    · rw [hheap]
      exact Nat.le_succ _
  have still : ∀ {m'' : Machine κ ω}, m''.heap = m.heap →
      Numbered m'' ∧ m''.heap.nextSessionId.toNat ≤ m.heap.nextSessionId.toNat + 1 := by
    intro m'' hheap
    refine ⟨h.frame (by rw [hheap]) (by rw [hheap]; exact fun _ _ hp => hp) fun q => by rw [hheap], ?_⟩
    rw [hheap]
    exact Nat.le_succ _
  cases hstep with
  | connect hc => exact h.connect ho hlt _ _ _ _
  | @reset c p id hc => exact modified p (f := SessionObject.reset) (fun _ => rfl) rfl
  | @pushed c task p id queue job hc hcall => exact modified p (f := fun o => o.push m.pushed) (fun _ => rfl) rfl
  | @set w response job p hw => exact modified p (f := fun o => o.set job.serial response) (fun _ => rfl) rfl
  | @count w p hw => exact modified p (f := SessionObject.increment) (fun _ => rfl) rfl
  | @markInactive c p id hc =>
    unfold Heap.markInactive
    split
    · rename_i i q _
      exact modified q (f := SessionObject.markInactive) (fun _ => rfl) rfl
    · exact still rfl
  | @destroy c id hc =>
    unfold Heap.destroy
    split
    · rename_i i q _
      exact ⟨h.frame rfl (fun _ _ hp => (Heap.sessions_remove.mp hp).2) fun _ => Heap.sessionId_remove, Nat.le_succ _⟩
    · exact still rfl
  | _ => exact still rfl

end Stash.Delivery.Machine
