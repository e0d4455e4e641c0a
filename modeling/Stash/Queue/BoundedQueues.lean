import Mathlib.Data.Nat.ModEq
import Mathlib.Logic.Function.Basic
import Stash.Foundation.Fifos
import Stash.Threads.ClientThread

/-! The two queues between the threads, of connections and of tasks: rings that are guarded by
one mutex each. A call is the critical section that it ends with; a call that waits on a
condition variable is not enabled. -/
namespace Stash.Queue
open Foundation.Fifos Foundation.Runs Threads

structure Ring (α : Type*) where
  slots : Nat → α
  capacity : Nat
  head : Nat
  tail : Nat
  size : Nat
  shutdown : Bool

variable {α : Type*}

namespace Ring

/-- The state that `calloc` and the assignments behind it leave. -/
def init (zero : α) (calloc : Bool) (capacity : Int) : Option (Ring α) :=
  if capacity ≤ 0 then none
  else if !calloc then none
  else some ⟨fun _ => zero, capacity.toNat, 0, 0, 0, false⟩

def push (q : Ring α) (x : α) : Option (Ring α × Answer α) :=
  if q.size = q.capacity ∧ q.shutdown = false then none
  else if q.shutdown then some (q, .refused x)
  else
    some ({ q with
      slots := Function.update q.slots q.tail x
      tail := (q.tail + 1) % q.capacity
      size := q.size + 1 }, .pushed x)

def pop (q : Ring α) : Option (Ring α × Answer α) :=
  if q.size = 0 ∧ q.shutdown = false then none
  else if q.size = 0 ∧ q.shutdown = true then some (q, .ended)
  else
    some ({ q with
      head := (q.head + 1) % q.capacity
      size := q.size - 1 }, .popped (q.slots q.head))

def signalShutdown (q : Ring α) : Ring α × Answer α := ({ q with shutdown := true }, .closed)

def call (q : Ring α) : Call α → Option (Ring α × Answer α)
  | .push x => q.push x
  | .pop => q.pop
  | .shutdown => some q.signalShutdown

/-- Both indices are in range, and the items lie between them. -/
structure Valid (q : Ring α) : Prop where
  head_lt : q.head < q.capacity
  size_le : q.size ≤ q.capacity
  tail_eq : q.tail = (q.head + q.size) % q.capacity

def items (q : Ring α) : List α := (List.range q.size).map fun i => q.slots ((q.head + i) % q.capacity)

def fifo (q : Ring α) : Fifo α := ⟨q.capacity, q.items, q.shutdown⟩

variable {q : Ring α}

theorem length_items (q : Ring α) : q.items.length = q.size := by simp [items]

/-- The slot that a push writes holds no item. -/
theorem Valid.tail_free (h : q.Valid) (hsize : q.size < q.capacity) {i : Nat} (hi : i < q.size) :
    (q.head + i) % q.capacity ≠ q.tail := by
  rw [h.tail_eq]
  intro heq
  have hdvd : q.capacity ∣ q.head + q.size - (q.head + i) := (Nat.modEq_iff_dvd' (by omega)).mp heq
  have hle := Nat.le_of_dvd (by omega) hdvd
  omega

theorem items_push (h : q.Valid) (hsize : q.size < q.capacity) (x : α) :
    items { q with
      slots := Function.update q.slots q.tail x
      tail := (q.tail + 1) % q.capacity
      size := q.size + 1 } = q.items ++ [x] := by
  simp only [items, List.range_succ, List.map_append, List.map_cons, List.map_nil]
  congr 1
  · apply List.map_congr_left
    intro i hi
    rw [Function.update_of_ne (h.tail_free hsize (List.mem_range.mp hi))]
  · rw [← h.tail_eq, Function.update_self]

theorem items_pop (q : Ring α) (hsize : q.size ≠ 0) (hhead : q.head < q.capacity) :
    q.items = q.slots q.head ::
      items { q with head := (q.head + 1) % q.capacity, size := q.size - 1 } := by
  obtain ⟨n, hn⟩ := Nat.exists_eq_succ_of_ne_zero hsize
  simp only [items, hn, Nat.succ_eq_add_one, List.range_succ_eq_map, List.map_cons, List.map_map,
    Nat.add_sub_cancel, Nat.add_zero, Nat.mod_eq_of_lt hhead]
  congr 1
  apply List.map_congr_left
  intro i _
  simp only [Function.comp, Nat.mod_add_mod]
  rw [Nat.add_right_comm, Nat.add_assoc]

theorem Valid.push (h : q.Valid) (hsize : q.size < q.capacity) (x : α) :
    Valid { q with
      slots := Function.update q.slots q.tail x
      tail := (q.tail + 1) % q.capacity
      size := q.size + 1 } where
  head_lt := h.head_lt
  size_le := hsize
  tail_eq := by
    simp only [h.tail_eq, Nat.mod_add_mod]
    rw [Nat.add_assoc]

theorem Valid.pop (h : q.Valid) (hsize : q.size ≠ 0) :
    Valid { q with head := (q.head + 1) % q.capacity, size := q.size - 1 } where
  head_lt := Nat.mod_lt _ (Nat.lt_of_le_of_lt (Nat.zero_le _) h.head_lt)
  size_le := Nat.le_trans (Nat.sub_le _ _) h.size_le
  tail_eq := by
    simp only [h.tail_eq, Nat.mod_add_mod]
    congr 1
    omega

theorem keep_call {q' : Ring α} {c : Call α} {a : Answer α} (h : q.Valid) (hcall : q.call c = some (q', a)) :
    q'.Valid := by
  cases c with
  | push x =>
    simp only [call, push] at hcall
    split at hcall
    · cases hcall
    · rename_i hroom
      split at hcall
      · obtain ⟨rfl, _⟩ := Prod.mk.inj (Option.some.inj hcall)
        exact h
      · rename_i hopen
        obtain ⟨rfl, _⟩ := Prod.mk.inj (Option.some.inj hcall)
        refine h.push (Nat.lt_of_le_of_ne h.size_le fun hfull => hroom ⟨hfull, ?_⟩) x
        simpa using hopen
  | pop =>
    simp only [call, pop] at hcall
    split at hcall
    · cases hcall
    · split at hcall
      · obtain ⟨rfl, _⟩ := Prod.mk.inj (Option.some.inj hcall)
        exact h
      · rename_i hwait hend
        obtain ⟨rfl, _⟩ := Prod.mk.inj (Option.some.inj hcall)
        refine h.pop fun hempty => ?_
        cases hshut : q.shutdown with
        | false => exact hwait ⟨hempty, hshut⟩
        | true => exact hend ⟨hempty, hshut⟩
  | shutdown =>
    obtain ⟨rfl, _⟩ := Prod.mk.inj (Option.some.inj hcall)
    exact ⟨h.head_lt, h.size_le, h.tail_eq⟩

/-- A ring answers like the list of its items. -/
theorem answer_call (h : q.Valid) (c : Call α) :
    (q.call c).map (fun r => (r.1.fifo, r.2)) = q.fifo.call c := by
  cases c with
  | push x =>
    simp only [call, push, Fifo.call, fifo, length_items]
    by_cases hshut : q.shutdown = true
    · simp [hshut]
    · by_cases hfull : q.size = q.capacity
      · simp [hfull, hshut]
      · have hroom : q.size < q.capacity := Nat.lt_of_le_of_ne h.size_le hfull
        rw [if_neg fun hwait => hfull hwait.1, if_neg hshut, if_neg hshut, if_pos hroom, Option.map_some,
          items_push h hroom x]
  | pop =>
    simp only [call, pop, Fifo.call, fifo]
    by_cases hempty : q.size = 0
    · have hnil : q.items = [] := List.length_eq_zero_iff.mp (q.length_items.trans hempty)
      by_cases hshut : q.shutdown = true
      · simp [hempty, hnil, hshut]
      · simp [hempty, hnil, hshut]
    · simp only [hempty, false_and, if_false, Option.map_some, items_pop q hempty h.head_lt]
  | shutdown => rfl

theorem simulates : Simulates (call (α := α)) Valid fifo where
  keep := fun _ _ _ _ => keep_call
  answer := fun _ c h => answer_call h c

theorem init_valid {zero : α} {calloc : Bool} {capacity : Int} (h : init zero calloc capacity = some q) :
    q.Valid ∧ q.fifo = ⟨capacity.toNat, [], false⟩ := by
  unfold init at h
  split at h
  · cases h
  · rename_i hpos
    split at h
    · cases h
    · obtain rfl := Option.some.inj h
      have hcapacity : 0 < capacity.toNat := by omega
      exact ⟨⟨hcapacity, Nat.zero_le _, (Nat.zero_mod _).symm⟩, rfl⟩

end Ring

abbrev TaskQueue := Ring Task

/-- The state of the slots behind `calloc`. -/
def zeroTask : Task := ⟨.upload, 0, [], [], 0, none⟩

def taskQueueInit (calloc : Bool) (capacity : Int) : Option TaskQueue := Ring.init zeroTask calloc capacity
def taskQueuePush (q : TaskQueue) (t : Task) : Option (TaskQueue × Answer Task) := q.push t
def taskQueuePop (q : TaskQueue) : Option (TaskQueue × Answer Task) := q.pop
def taskQueueSignalShutdown (q : TaskQueue) : TaskQueue × Answer Task := q.signalShutdown

def taskQueueCall (q : TaskQueue) : Call Task → Option (TaskQueue × Answer Task)
  | .push t => taskQueuePush q t
  | .pop => taskQueuePop q
  | .shutdown => some (taskQueueSignalShutdown q)

/-- The return value; a task comes back through the pointer. -/
def taskQueueReturns : Answer Task → Int
  | .pushed _ | .popped _ | .closed => 0
  | .refused _ | .ended => -1

/-- A descriptor that `accept` has returned. -/
abbrev Fd := { fd : Int // 0 ≤ fd }

abbrev ClientQueue := Ring Fd

def clientQueueInit (calloc mtxInit notEmptyInit notFullInit : Bool) (capacity : Int) : Option ClientQueue :=
  (Ring.init ⟨0, le_refl 0⟩ calloc capacity).filter fun _ => mtxInit && notEmptyInit && notFullInit
def clientQueuePush (q : ClientQueue) (fd : Fd) : Option (ClientQueue × Answer Fd) := q.push fd
def clientQueuePop (q : ClientQueue) : Option (ClientQueue × Answer Fd) := q.pop
def clientQueueSignalShutdown (q : ClientQueue) : ClientQueue × Answer Fd := q.signalShutdown

def clientQueueCall (q : ClientQueue) : Call Fd → Option (ClientQueue × Answer Fd)
  | .push fd => clientQueuePush q fd
  | .pop => clientQueuePop q
  | .shutdown => some (clientQueueSignalShutdown q)

/-- The return value; the descriptor itself when there is one. -/
def clientQueueReturns : Answer Fd → Int
  | .pushed _ | .closed => 0
  | .popped fd => fd
  | .refused _ | .ended => -1

def isPop : Answer α → Bool
  | .popped _ | .ended => true
  | _ => false

/-- The ring is in order and drains, and a pop that has returned -1 found it shut down and
empty, as it is still. -/
structure Draining (returns : Answer α → Int) (s : Ring α × List (Answer α)) : Prop where
  valid : s.1.Valid
  drains : Drains s.1.fifo s.2
  ended : ∀ a ∈ s.2, isPop a = true → returns a = -1 → s.1.shutdown = true ∧ s.1.size = 0

/-- The ring keeps to this in every state of every run, and answers like a bounded list. -/
structure BoundedFifo (call : Ring α → Call α → Option (Ring α × Answer α)) (returns : Answer α → Int)
    (capacity : Nat) (q : Ring α) : Prop where
  draining : ∀ calls, Always (logged call) (Draining returns) (q, []) calls
  simulates : ∀ calls, (run (logged call) (q, []) calls).map (fun s => (s.1.fifo, s.2)) =
    run (logged Fifo.call) (⟨capacity, [], false⟩, []) calls

theorem boundedFifo_of_valid {call : Ring α → Call α → Option (Ring α × Answer α)} {returns : Answer α → Int}
    {capacity : Nat} {q : Ring α} (hcall : call = Ring.call)
    (hreturns : ∀ a, isPop a = true → returns a = -1 → a = .ended) (hvalid : q.Valid)
    (hempty : q.fifo = ⟨capacity, [], false⟩) : BoundedFifo call returns capacity q where
  draining := by
    intro calls
    rw [hcall]
    have hdrains : Drains q.fifo [] := hempty ▸ drains_empty capacity
    refine (Ring.simulates.drains hvalid hdrains calls).mono fun s hs => ⟨hs.1, hs.2, fun a ha hpop hcode => ?_⟩
    rw [hreturns a hpop hcode] at ha
    obtain ⟨hshut, hitems⟩ := hs.2.ended ha
    exact ⟨hshut, s.1.length_items.symm.trans (congrArg List.length hitems)⟩
  simulates := by
    intro calls
    rw [hcall, ← hempty]
    exact Ring.simulates.run hvalid [] calls

theorem taskQueueCall_eq : taskQueueCall = Ring.call := by
  funext q c
  cases c with
  | push t => rfl
  | pop => rfl
  | shutdown => rfl

theorem clientQueueCall_eq : clientQueueCall = Ring.call := by
  funext q c
  cases c with
  | push fd => rfl
  | pop => rfl
  | shutdown => rfl

/-- Both queues are bounded FIFOs that drain behind a shutdown. -/
theorem queues_are_bounded_fifos (calloc mtxInit notEmptyInit notFullInit : Bool) (capacity : Int) :
    (∀ q, taskQueueInit calloc capacity = some q →
      BoundedFifo taskQueueCall taskQueueReturns capacity.toNat q) ∧
    (∀ q, clientQueueInit calloc mtxInit notEmptyInit notFullInit capacity = some q →
      BoundedFifo clientQueueCall clientQueueReturns capacity.toNat q) := by
  constructor
  · intro q hq
    obtain ⟨hvalid, hempty⟩ := Ring.init_valid hq
    refine boundedFifo_of_valid taskQueueCall_eq (fun a hpop hcode => ?_) hvalid hempty
    cases a with
    | ended => rfl
    | popped t => cases hcode
    | _ => cases hpop
  · intro q hq
    obtain ⟨hvalid, hempty⟩ := Ring.init_valid (Option.filter_eq_some_iff.mp hq).1
    refine boundedFifo_of_valid clientQueueCall_eq (fun a hpop hcode => ?_) hvalid hempty
    cases a with
    | ended => rfl
    | popped fd =>
      have hfd : fd.val = -1 := hcode
      have hnonneg := fd.property
      omega
    | _ => cases hpop

theorem queues_are_bounded_fifos_default :
    (∃ q, taskQueueInit true 128 = some q ∧ BoundedFifo taskQueueCall taskQueueReturns 128 q) ∧
    (∃ q, clientQueueInit true true true true 64 = some q ∧ BoundedFifo clientQueueCall clientQueueReturns 64 q) :=
  ⟨⟨_, rfl, (queues_are_bounded_fifos true true true true 128).1 _ rfl⟩,
    ⟨_, rfl, (queues_are_bounded_fifos true true true true 64).2 _ rfl⟩⟩

end Stash.Queue
