import Mathlib.Data.List.Basic
import Stash.Foundation.Histories
import Stash.Foundation.Runs

/-! Bounded first-in first-out queues that can be shut down, and what the answers of such a
queue say over a whole run. A call that has to wait is not enabled. -/
namespace Stash.Foundation.Fifos
open Histories Runs

inductive Call (α : Type*) where
  | push (x : α)
  | pop
  | shutdown
  deriving DecidableEq

/-- What a call comes back with; `ended` is a pop that finds the queue shut down and empty. -/
inductive Answer (α : Type*) where
  | pushed (x : α)
  | refused (x : α)
  | popped (x : α)
  | ended
  | closed
  deriving DecidableEq

structure Fifo (α : Type*) where
  capacity : Nat
  items : List α
  shutdown : Bool

variable {α σ : Type*}

def Fifo.call (q : Fifo α) : Call α → Option (Fifo α × Answer α)
  | .push x =>
    if q.shutdown then some (q, .refused x)
    else if q.items.length < q.capacity then some ({ q with items := q.items ++ [x] }, .pushed x)
    else none
  | .pop =>
    match q.items with
    | x :: rest => some ({ q with items := rest }, .popped x)
    | [] => if q.shutdown then some (q, .ended) else none
  | .shutdown => some ({ q with shutdown := true }, .closed)

theorem Fifo.items_of_pushed {q q' : Fifo α} {x y : α} (h : q.call (.push x) = some (q', .pushed y)) :
    q'.items = q.items ++ [x] := by
  simp only [Fifo.call] at h
  split at h
  · simp at h
  · split at h
    · obtain ⟨rfl, _⟩ := Prod.mk.inj (Option.some.inj h)
      rfl
    · cases h

theorem Fifo.items_of_popped {q q' : Fifo α} {x : α} (h : q.call .pop = some (q', .popped x)) :
    q.items = x :: q'.items := by
  simp only [Fifo.call] at h
  split at h
  · rename_i y rest hitems
    obtain ⟨rfl, hy⟩ := Prod.mk.inj (Option.some.inj h)
    rw [hitems, Answer.popped.inj hy]
  · split at h
    · simp at h
    · cases h

theorem Fifo.open_of_pushed {q q' : Fifo α} {x y : α} (h : q.call (.push x) = some (q', .pushed y)) :
    q.shutdown = false ∧ q'.shutdown = false := by
  simp only [Fifo.call] at h
  split at h
  · simp at h
  · rename_i hopen
    split at h
    · obtain ⟨rfl, _⟩ := Prod.mk.inj (Option.some.inj h)
      simpa using hopen
    · cases h

theorem Fifo.shutdown_of_popped {q q' : Fifo α} {x : α} (h : q.call .pop = some (q', .popped x)) :
    q'.shutdown = q.shutdown := by
  simp only [Fifo.call] at h
  split at h
  · obtain ⟨rfl, _⟩ := Prod.mk.inj (Option.some.inj h)
    rfl
  · split at h
    · simp at h
    · cases h

/-- A pop ends on a queue that is shut down and empty. -/
theorem Fifo.empty_of_ended {q q' : Fifo α} (h : q.call .pop = some (q', .ended)) :
    q.shutdown = true ∧ q.items = [] := by
  simp only [Fifo.call] at h
  split at h
  · simp at h
  · rename_i hitems
    split at h
    · rename_i hshut
      exact ⟨hshut, hitems⟩
    · cases h

/-- A queue with the answers that it has given. -/
def logged (call : σ → Call α → Option (σ × Answer α)) (s : σ × List (Answer α)) (c : Call α) :
    Option (σ × List (Answer α)) :=
  (call s.1 c).map fun r => (r.1, s.2 ++ [r.2])

def Answer.pushedItem : Answer α → Option α
  | .pushed x => some x
  | _ => none

def Answer.poppedItem : Answer α → Option α
  | .popped x => some x
  | _ => none

/-- The items that were taken in, and those that were handed out. -/
def pushes (log : List (Answer α)) : List α := log.filterMap Answer.pushedItem
def pops (log : List (Answer α)) : List α := log.filterMap Answer.poppedItem

/-- What a queue owes its callers: it hands out what it took in, in that order; it takes in
nothing behind a shutdown; and it ends only when it has handed out everything. -/
structure Drains (q : Fifo α) (log : List (Answer α)) : Prop where
  bounded : q.items.length ≤ q.capacity
  order : pushes log = pops log ++ q.items
  shut : q.shutdown = true ↔ .closed ∈ log
  refusing : ∀ before after x, log = before ++ .pushed x :: after → .closed ∉ before
  ended : .ended ∈ log → q.shutdown = true ∧ q.items = []

@[simp] theorem pushes_concat (log : List (Answer α)) (a : Answer α) :
    pushes (log ++ [a]) = pushes log ++ a.pushedItem.toList := by
  rw [pushes, List.filterMap_append]
  cases a <;> rfl

@[simp] theorem pops_concat (log : List (Answer α)) (a : Answer α) :
    pops (log ++ [a]) = pops log ++ a.poppedItem.toList := by
  rw [pops, List.filterMap_append]
  cases a <;> rfl

theorem drains_empty (capacity : Nat) : Drains (⟨capacity, [], false⟩ : Fifo α) [] where
  bounded := Nat.zero_le _
  order := rfl
  shut := by simp
  refusing := fun before after x h => by simp at h
  ended := by simp

/-- The next answer keeps the order in which pushes come before the shutdown. -/
private theorem refusing_concat {log : List (Answer α)} {a : Answer α}
    (h : ∀ before after x, log = before ++ .pushed x :: after → .closed ∉ before)
    (ha : ∀ x, a = .pushed x → .closed ∉ log) (before after : List (Answer α)) (x : α)
    (hlog : log ++ [a] = before ++ .pushed x :: after) : .closed ∉ before := by
  have hjust : Justified (fun b front => ∀ y, b = .pushed y → .closed ∉ front) log := by
    rintro front _ back hlog y rfl
    exact h front back y hlog
  exact hjust.concat ha before _ after hlog x rfl

/-- Every call keeps what the queue owes. -/
theorem drains_call {q q' : Fifo α} {log : List (Answer α)} {c : Call α} {a : Answer α} (h : Drains q log)
    (hcall : q.call c = some (q', a)) : Drains q' (log ++ [a]) := by
  obtain ⟨capacity, items, shutdown⟩ := q
  cases c with
  | push x =>
    simp only [Fifo.call] at hcall
    split at hcall
    · rename_i hshut
      obtain ⟨rfl, rfl⟩ := Prod.mk.inj (Option.some.inj hcall)
      refine ⟨h.bounded, ?_, ?_, refusing_concat h.refusing (by simp), ?_⟩
      · simpa [Answer.pushedItem, Answer.poppedItem] using h.order
      · simpa using h.shut
      · simpa using h.ended
    · rename_i hopen
      split at hcall
      · rename_i hroom
        obtain ⟨rfl, rfl⟩ := Prod.mk.inj (Option.some.inj hcall)
        have hnotclosed : .closed ∉ log := fun hmem => hopen (h.shut.mpr hmem)
        refine ⟨?_, ?_, ?_, refusing_concat h.refusing fun _ _ => hnotclosed, ?_⟩
        · simpa [Nat.succ_le_iff] using hroom
        · have horder : pushes log = pops log ++ items := h.order
          simp [Answer.pushedItem, Answer.poppedItem, horder]
        · simpa using h.shut
        · intro hend
          exact absurd (h.ended (by simpa using hend)).1 hopen
      · cases hcall
  | pop =>
    cases items with
    | nil =>
      simp only [Fifo.call] at hcall
      split at hcall
      · rename_i hshut
        obtain ⟨rfl, rfl⟩ := Prod.mk.inj (Option.some.inj hcall)
        refine ⟨h.bounded, ?_, ?_, refusing_concat h.refusing (by simp), fun _ => ⟨hshut, rfl⟩⟩
        · simpa [Answer.pushedItem, Answer.poppedItem] using h.order
        · simpa using h.shut
      · cases hcall
    | cons x rest =>
      obtain ⟨rfl, rfl⟩ := Prod.mk.inj (Option.some.inj hcall)
      refine ⟨?_, ?_, ?_, refusing_concat h.refusing (by simp), fun hend => ?_⟩
      · exact Nat.le_trans (Nat.le_succ _) h.bounded
      · simpa [Answer.pushedItem, Answer.poppedItem] using h.order
      · simpa using h.shut
      · exact absurd (h.ended (by simpa using hend)).2 (by simp)
  | shutdown =>
    obtain ⟨rfl, rfl⟩ := Prod.mk.inj (Option.some.inj hcall)
    refine ⟨h.bounded, ?_, by simp, refusing_concat h.refusing (by simp), fun hend => ⟨rfl, ?_⟩⟩
    · simpa [Answer.pushedItem, Answer.poppedItem] using h.order
    · exact (h.ended (by simpa using hend)).2

/-- A queue that answers like a FIFO through `view`, from every state that its invariant
allows. -/
structure Simulates (call : σ → Call α → Option (σ × Answer α)) (Valid : σ → Prop) (view : σ → Fifo α) : Prop where
  keep : ∀ s c s' a, Valid s → call s c = some (s', a) → Valid s'
  answer : ∀ s c, Valid s → (call s c).map (fun r => (view r.1, r.2)) = (view s).call c

section
variable {call : σ → Call α → Option (σ × Answer α)} {Valid : σ → Prop} {view : σ → Fifo α}

theorem Simulates.drains (h : Simulates call Valid view) {s : σ} {log : List (Answer α)} (hs : Valid s)
    (hlog : Drains (view s) log) (calls : List (Call α)) :
    Always (logged call) (fun t => Valid t.1 ∧ Drains (view t.1) t.2) (s, log) calls := by
  refine always_of_step (fun t c t' ht hstep => ?_) calls ⟨hs, hlog⟩
  obtain ⟨⟨u, a⟩, hcall, rfl⟩ := Option.map_eq_some_iff.mp hstep
  have hanswer := h.answer t.1 c ht.1
  rw [hcall, Option.map_some] at hanswer
  exact ⟨h.keep _ _ _ _ ht.1 hcall, drains_call ht.2 hanswer.symm⟩

/-- Whole runs give the answers of the FIFO, and are enabled when those of the FIFO are. -/
theorem Simulates.run (h : Simulates call Valid view) {s : σ} (hs : Valid s) (log : List (Answer α))
    (calls : List (Call α)) :
    (Runs.run (logged call) (s, log) calls).map (fun t => (view t.1, t.2)) =
      Runs.run (logged Fifo.call) (view s, log) calls := by
  induction calls generalizing s log with
  | nil => rfl
  | cons c calls ih =>
    have hanswer := h.answer s c hs
    simp only [Runs.run, logged, ← hanswer]
    cases hcall : call s c with
    | none => rfl
    | some r => exact ih (h.keep _ _ _ _ hs hcall) (log ++ [r.2])

end

end Stash.Foundation.Fifos
