import Stash.Foundation.Tallies
import Stash.Queue.BoundedQueues

/-! The threads that wait on a queue's two condition variables. A thread holds the mutex from
its test of the `while` condition to its return or its next wait, so that stretch is one step;
a thread that was woken tests the condition again, after any others that come before it. -/
namespace Stash.Queue
open Foundation.Fifos Foundation.Runs Foundation.Tallies Threads

inductive Condition where
  | notEmpty
  | notFull
  deriving DecidableEq

variable {α ι : Type*}

/-- Where a thread is: outside the queue's code, or in `pthread_cond_wait` on behalf of a call. -/
inductive Place (α : Type*) where
  | running
  | waiting (c : Call α)
  | woken (c : Call α)

/-- The condition variable that the call waits on. -/
def waitsFor : Call α → Option Condition
  | .push _ => some .notFull
  | .pop => some .notEmpty
  | .shutdown => none

namespace Place

def waitsOn (k : Condition) : Place α → Bool
  | .waiting c => waitsFor c == some k
  | _ => false

def wokenOn (k : Condition) : Place α → Bool
  | .woken c => waitsFor c == some k
  | _ => false

def wake : Place α → Place α
  | .waiting c => .woken c
  | p => p

end Place

structure Monitor (α ι : Type*) where
  queue : Ring α
  place : ι → Place α

/-- `wake` is the waiter that a signal of this step reaches. -/
inductive Action (α ι : Type*) where
  | call (t : ι) (c : Call α) (wake : Option ι)
  | resume (t : ι) (wake : Option ι)
  | spurious (t : ι)

/-- One waiter is moved, unless there is none. -/
def condSignal [Fintype ι] [DecidableEq ι] (k : Condition) (wake : Option ι) (place : ι → Place α) :
    Option (ι → Place α) :=
  match wake with
  | some u => if (place u).waitsOn k then some (Function.update place u (place u).wake) else none
  | none => if ∀ u, (place u).waitsOn k = false then some place else none

/-- Both condition variables at once. -/
def condBroadcast (place : ι → Place α) : ι → Place α := fun u => (place u).wake

def notify [Fintype ι] [DecidableEq ι] (a : Answer α) (wake : Option ι) (place : ι → Place α) :
    Option (ι → Place α) :=
  match a with
  | .pushed _ => condSignal .notEmpty wake place
  | .popped _ => condSignal .notFull wake place
  | .closed => some (condBroadcast place)
  | .refused _ | .ended => some place

namespace Monitor
variable [Fintype ι] [DecidableEq ι]

def start (q : Ring α) : Monitor α ι := ⟨q, fun _ => .running⟩

/-- A thread that holds the mutex: it waits when the call cannot go on. -/
def attempt (call : Ring α → Call α → Option (Ring α × Answer α)) (m : Monitor α ι) (t : ι) (c : Call α)
    (wake : Option ι) : Option (Monitor α ι) :=
  match call m.queue c with
  | none => some { m with place := Function.update m.place t (.waiting c) }
  | some (q, a) => (notify a wake (Function.update m.place t .running)).map fun place => ⟨q, place⟩

def step (call : Ring α → Call α → Option (Ring α × Answer α)) (m : Monitor α ι) :
    Action α ι → Option (Monitor α ι)
  | .call t c wake =>
    match m.place t with
    | .running => m.attempt call t c wake
    | _ => none
  | .resume t wake =>
    match m.place t with
    | .woken c => m.attempt call t c wake
    | _ => none
  | .spurious t =>
    match m.place t with
    | .waiting c => some { m with place := Function.update m.place t (.woken c) }
    | _ => none

/-- The items for a consumer, the free slots for a producer. -/
def available (q : Ring α) : Condition → Nat
  | .notEmpty => q.size
  | .notFull => q.capacity - q.size

def waitsOn (m : Monitor α ι) (k : Condition) : Prop := ∃ t, (m.place t).waitsOn k = true

/-- The woken threads that have not run yet. -/
def wokenOn (m : Monitor α ι) (k : Condition) : Nat := tally (Place.wokenOn k) m.place

/-- The counting argument, and what it is for: nobody is left waiting for what is there. -/
structure NoLostWakeup (m : Monitor α ι) : Prop where
  consumers : m.waitsOn .notEmpty → m.queue.size ≤ m.wokenOn .notEmpty
  producers : m.waitsOn .notFull → m.queue.capacity - m.queue.size ≤ m.wokenOn .notFull
  shutdown : m.queue.shutdown = true → ∀ t c, m.place t ≠ .waiting c
  pending : ∀ k, m.waitsOn k → 0 < available m.queue k → ∃ t, (m.place t).wokenOn k = true

end Monitor

section
variable {q q' : Ring α} {c : Call α} {a : Answer α} {k k' : Condition} {n : Nat}

/-- A call waits for want of what its condition variable stands for. -/
theorem call_eq_none (h : q.call c = none) :
    q.shutdown = false ∧ ∀ k, waitsFor c = some k → Monitor.available q k = 0 := by
  cases c with
  | push x =>
    simp only [Ring.call, Ring.push] at h
    split at h
    · rename_i hfull
      refine ⟨hfull.2, fun k hk => ?_⟩
      obtain rfl := Option.some.inj hk
      exact Nat.sub_eq_zero_of_le hfull.1.ge
    · split at h <;> cases h
  | pop =>
    simp only [Ring.call, Ring.pop] at h
    split at h
    · rename_i hempty
      refine ⟨hempty.2, fun k hk => ?_⟩
      obtain rfl := Option.some.inj hk
      exact hempty.1
    · split at h <;> cases h
  | shutdown => cases h

/-- What a call that goes on does to the counts. -/
inductive Finished (q q' : Ring α) : Call α → Answer α → Prop where
  | pushed (x) : q'.shutdown = q.shutdown → q'.size = q.size + 1 → q'.capacity = q.capacity →
      Finished q q' (.push x) (.pushed x)
  | popped (x) : q'.shutdown = q.shutdown → q.size = q'.size + 1 → q'.capacity = q.capacity →
      Finished q q' .pop (.popped x)
  | refused (x) : q' = q → q.shutdown = true → Finished q q' (.push x) (.refused x)
  | ended : q' = q → q.shutdown = true → Finished q q' .pop .ended
  | closed : Finished q q' .shutdown .closed

theorem call_finished (h : q.call c = some (q', a)) : Finished q q' c a := by
  cases c with
  | push x =>
    simp only [Ring.call, Ring.push] at h
    split at h
    · cases h
    · split at h
      · rename_i hshut
        obtain ⟨rfl, rfl⟩ := Prod.mk.inj (Option.some.inj h)
        exact .refused x rfl hshut
      · obtain ⟨rfl, rfl⟩ := Prod.mk.inj (Option.some.inj h)
        exact .pushed x rfl rfl rfl
  | pop =>
    simp only [Ring.call, Ring.pop] at h
    split at h
    · cases h
    · split at h
      · rename_i hend
        obtain ⟨rfl, rfl⟩ := Prod.mk.inj (Option.some.inj h)
        exact .ended rfl hend.2
      · rename_i hwait hend
        obtain ⟨rfl, rfl⟩ := Prod.mk.inj (Option.some.inj h)
        have hsize : q.size ≠ 0 := fun hempty => by
          cases hshut : q.shutdown with
          | false => exact hwait ⟨hempty, hshut⟩
          | true => exact hend ⟨hempty, hshut⟩
        exact .popped _ rfl (Nat.succ_pred_eq_of_ne_zero hsize).symm rfl
  | shutdown =>
    obtain ⟨rfl, rfl⟩ := Prod.mk.inj (Option.some.inj h)
    exact .closed

end

section
variable {place place' : ι → Place α} {k k' : Condition} {n : Nat} {t : ι}

/-- Where somebody waits, at least `n` have been woken. -/
def Counted [Fintype ι] (place : ι → Place α) (k : Condition) (n : Nat) : Prop :=
  (∃ t, (place t).waitsOn k = true) → n ≤ tally (Place.wokenOn k) place

def Calm (place : ι → Place α) : Prop := ∀ t c, place t ≠ .waiting c

theorem calm_condBroadcast (place : ι → Place α) : Calm (condBroadcast place) := by
  intro t c
  simp only [condBroadcast]
  cases place t with
  | running => nofun
  | waiting c' => nofun
  | woken c' => nofun

theorem waitsOn_update [DecidableEq ι] {p : Place α} (hp : p.waitsOn k = false)
    (h : ∃ u, (Function.update place t p u).waitsOn k = true) : ∃ u, (place u).waitsOn k = true := by
  obtain ⟨u, hu⟩ := h
  by_cases heq : u = t
  · rw [heq, Function.update_self, hp] at hu
    cases hu
  · exact ⟨u, by rwa [Function.update_of_ne heq] at hu⟩

theorem Calm.goesOn [DecidableEq ι] (h : Calm place) (t : ι) : Calm (Function.update place t .running) := by
  intro u c
  by_cases heq : u = t
  · rw [heq, Function.update_self]
    nofun
  · rw [Function.update_of_ne heq]
    exact h u c

variable [Fintype ι]

theorem Calm.counted (h : Calm place) (k : Condition) (n : Nat) : Counted place k n := by
  rintro ⟨t, ht⟩
  cases hp : place t with
  | waiting c => exact absurd hp (h t c)
  | running => rw [hp] at ht; cases ht
  | woken c => rw [hp] at ht; cases ht

theorem Counted.mono (h : Counted place k n) {m : Nat} (hm : m ≤ n) : Counted place k m :=
  fun hw => Nat.le_trans hm (h hw)

variable [DecidableEq ι]

/-- A thread that goes on uses up the wakeup that it had. -/
theorem Counted.goesOn (h : Counted place k n) (t : ι) :
    Counted (Function.update place t .running) k (n - ((place t).wokenOn k).toNat) := by
  intro hw
  have hcount := tally_update (Place.wokenOn k) place t .running
  have hle := h (waitsOn_update rfl hw)
  simp only [Place.wokenOn, Bool.toNat_false] at hcount ⊢
  omega

/-- A thread that goes back to waiting finds nothing there. -/
theorem Counted.waits (h : Counted place k n) {c : Call α} (hn : waitsFor c = some k → n = 0)
    (hk : ((place t).wokenOn k).toNat ≤ if waitsFor c = some k then 1 else 0) :
    Counted (Function.update place t (.waiting c)) k n := by
  by_cases hc : waitsFor c = some k
  · intro _
    rw [hn hc]
    exact Nat.zero_le _
  · intro hw
    have hwaits : (Place.waiting c).waitsOn k = false := by simpa [Place.waitsOn] using hc
    have hcount := tally_update (Place.wokenOn k) place t (.waiting c)
    have hle := h (waitsOn_update hwaits hw)
    rw [if_neg hc] at hk
    simp only [Place.wokenOn, Bool.toNat_false] at hcount hk ⊢
    omega

theorem Counted.woken (h : Counted place k n) {c : Call α} (ht : place t = .waiting c) :
    Counted (Function.update place t (.woken c)) k (n + if waitsFor c = some k then 1 else 0) := by
  intro hw
  have hcount := tally_update (Place.wokenOn k) place t (.woken c)
  have hle := h (waitsOn_update rfl hw)
  rw [ht] at hcount
  by_cases hc : waitsFor c = some k
  · simp only [Place.wokenOn, hc, beq_self_eq_true, Bool.toNat_true, Bool.toNat_false] at hcount ⊢
    rw [if_pos trivial]
    omega
  · rw [if_neg hc]
    have hoff : (Place.woken c).wokenOn k = false := by simpa [Place.wokenOn] using hc
    rw [hoff] at hcount
    simp only [Place.wokenOn, Bool.toNat_false] at hcount ⊢
    omega

/-- A signal makes up for one more item, and does nothing to the other condition. -/
theorem Counted.signalled {wake : Option ι} (hs : condSignal k' wake place = some place')
    (h : Counted place k n) : Counted place' k (n + if k = k' then 1 else 0) := by
  cases wake with
  | none =>
    simp only [condSignal] at hs
    split at hs
    · rename_i hnone
      obtain rfl := Option.some.inj hs
      by_cases hk : k = k'
      · rintro ⟨t, ht⟩
        rw [hk, hnone t] at ht
        cases ht
      · rw [if_neg hk]
        exact h
    · cases hs
  | some u =>
    simp only [condSignal] at hs
    split at hs
    · rename_i hu
      obtain rfl := Option.some.inj hs
      cases hp : place u with
      | waiting c =>
        have hc : waitsFor c = some k' := by simpa [Place.waitsOn, hp] using hu
        refine (h.woken hp).mono ?_
        by_cases hk : k = k'
        · simp [hk, hc]
        · simp [hk]
      | running => rw [hp] at hu; cases hu
      | woken c => rw [hp] at hu; cases hu
    · cases hs

theorem Calm.signalled {wake : Option ι} (h : Calm place) (hs : condSignal k wake place = some place') :
    Calm place' := by
  cases wake with
  | none =>
    simp only [condSignal] at hs
    split at hs
    · exact Option.some.inj hs ▸ h
    · cases hs
  | some u =>
    simp only [condSignal] at hs
    split at hs
    · rename_i hu
      cases hp : place u with
      | waiting c => exact absurd hp (h u c)
      | running => rw [hp] at hu; cases hu
      | woken c => rw [hp] at hu; cases hu
    · cases hs

end

namespace Monitor
variable [Fintype ι] {m m' : Monitor α ι}

structure Watched (m : Monitor α ι) : Prop where
  valid : m.queue.Valid
  counted : ∀ k, Counted m.place k (available m.queue k)
  calm : m.queue.shutdown = true → Calm m.place

theorem Watched.noLostWakeup (h : m.Watched) : m.NoLostWakeup where
  consumers := h.counted .notEmpty
  producers := h.counted .notFull
  shutdown := h.calm
  pending := fun k hwait hpos => tally_pos.mp (Nat.lt_of_lt_of_le hpos (h.counted k hwait))

theorem watched_start {q : Ring α} (h : q.Valid) : (start q : Monitor α ι).Watched := by
  have hcalm : Calm (start q : Monitor α ι).place := fun t c => nofun
  exact ⟨h, fun k => hcalm.counted k _, fun _ => hcalm⟩

variable [DecidableEq ι]

/-- The thread that runs is outside the queue's code, or was woken on behalf of this call. -/
theorem watched_attempt (h : m.Watched) {t : ι} {c : Call α} {wake : Option ι}
    (hplace : m.place t = .running ∨ m.place t = .woken c) (ha : m.attempt Ring.call t c wake = some m') :
    m'.Watched := by
  have hused : ∀ k, ((m.place t).wokenOn k).toNat ≤ if waitsFor c = some k then 1 else 0 := by
    intro k
    rcases hplace with hp | hp
    · rw [hp]
      exact Nat.zero_le _
    · rw [hp]
      by_cases hc : waitsFor c = some k
      · simp [Place.wokenOn, hc]
      · simp [Place.wokenOn, hc]
  unfold attempt at ha
  split at ha
  · rename_i hnone
    obtain rfl := Option.some.inj ha
    obtain ⟨hopen, hlack⟩ := call_eq_none hnone
    refine ⟨h.valid, fun k => (h.counted k).waits (hlack k) (hused k), fun hshut => ?_⟩
    rw [hopen] at hshut
    cases hshut
  · rename_i q a hcall
    obtain ⟨place, hnotify, rfl⟩ := Option.map_eq_some_iff.mp ha
    have hsize := h.valid.size_le
    have hgone := fun k => (h.counted k).goesOn t
    refine ⟨Ring.keep_call h.valid hcall, ?_, ?_⟩
    · intro k
      have huse := hused k
      cases call_finished hcall with
      | pushed x _ hs hc =>
        refine ((hgone k).signalled hnotify).mono ?_
        cases k with
        | notEmpty => simp [waitsFor] at huse; simp [available, hs, huse]
        | notFull => simp [waitsFor] at huse; simp [available, hs, hc]; omega
      | popped x _ hs hc =>
        refine ((hgone k).signalled hnotify).mono ?_
        cases k with
        | notEmpty => simp [waitsFor] at huse; simp [available]; omega
        | notFull => simp [waitsFor] at huse; simp [available, hs, hc, huse]; omega
      | refused x _ hshut =>
        obtain rfl := Option.some.inj hnotify
        exact ((h.calm hshut).goesOn t).counted k _
      | ended _ hshut =>
        obtain rfl := Option.some.inj hnotify
        exact ((h.calm hshut).goesOn t).counted k _
      | closed =>
        obtain rfl := Option.some.inj hnotify
        exact (calm_condBroadcast _).counted k _
    · intro hshut
      cases call_finished hcall with
      | pushed x hsame _ _ => exact ((h.calm (hsame ▸ hshut)).goesOn t).signalled hnotify
      | popped x hsame _ _ => exact ((h.calm (hsame ▸ hshut)).goesOn t).signalled hnotify
      | refused x _ hwas =>
        obtain rfl := Option.some.inj hnotify
        exact (h.calm hwas).goesOn t
      | ended _ hwas =>
        obtain rfl := Option.some.inj hnotify
        exact (h.calm hwas).goesOn t
      | closed =>
        obtain rfl := Option.some.inj hnotify
        exact calm_condBroadcast _

theorem step_queue {call : Ring α → Call α → Option (Ring α × Answer α)} {act : Action α ι}
    (hs : step call m act = some m') : m'.queue = m.queue ∨ ∃ c a, call m.queue c = some (m'.queue, a) := by
  have attempted : ∀ t c wake, m.attempt call t c wake = some m' →
      m'.queue = m.queue ∨ ∃ c a, call m.queue c = some (m'.queue, a) := by
    intro t c wake ha
    unfold attempt at ha
    split at ha
    · obtain rfl := Option.some.inj ha
      exact .inl rfl
    · rename_i q a hcall
      obtain ⟨place, _, rfl⟩ := Option.map_eq_some_iff.mp ha
      exact .inr ⟨c, a, hcall⟩
  cases act with
  | call t c wake =>
    simp only [step] at hs
    split at hs
    · exact attempted t c wake hs
    · cases hs
  | resume t wake =>
    simp only [step] at hs
    split at hs
    · exact attempted t _ wake hs
    · cases hs
  | spurious t =>
    simp only [step] at hs
    split at hs
    · obtain rfl := Option.some.inj hs
      exact .inl rfl
    · cases hs

theorem watched_step (h : m.Watched) {act : Action α ι} (hs : step Ring.call m act = some m') : m'.Watched := by
  cases act with
  | call t c wake =>
    simp only [step] at hs
    cases hp : m.place t with
    | running => rw [hp] at hs; exact watched_attempt h (.inl hp) hs
    | waiting c' => rw [hp] at hs; cases hs
    | woken c' => rw [hp] at hs; cases hs
  | resume t wake =>
    simp only [step] at hs
    cases hp : m.place t with
    | running => rw [hp] at hs; cases hs
    | waiting c => rw [hp] at hs; cases hs
    | woken c => rw [hp] at hs; exact watched_attempt h (.inr hp) hs
  | spurious t =>
    simp only [step] at hs
    cases hp : m.place t with
    | running => rw [hp] at hs; cases hs
    | waiting c =>
      rw [hp] at hs
      obtain rfl := Option.some.inj hs
      refine ⟨h.valid, fun k => ((h.counted k).woken hp).mono (Nat.le_add_right _ _), fun hshut => ?_⟩
      exact absurd hp (h.calm hshut t c)
    | woken c => rw [hp] at hs; cases hs

/-- Whatever its threads do, the queue itself goes through a run of calls. -/
theorem run_calls {call : Ring α → Call α → Option (Ring α × Answer α)} {acts : List (Action α ι)}
    (log : List (Answer α)) (h : run (step call) m acts = some m') :
    ∃ calls log', run (logged call) (m.queue, log) calls = some (m'.queue, log') := by
  induction acts generalizing m log with
  | nil =>
    obtain rfl := Option.some.inj h
    exact ⟨[], log, rfl⟩
  | cons act acts ih =>
    obtain ⟨u, hu, hrest⟩ := Option.bind_eq_some_iff.mp h
    rcases step_queue hu with hsame | ⟨c, a, hcall⟩
    · rw [← hsame]
      exact ih log hrest
    · obtain ⟨calls, log', hcalls⟩ := ih (log ++ [a]) hrest
      refine ⟨c :: calls, log', ?_⟩
      simp only [run, logged, hcall, Option.map_some, Option.bind_some]
      exact hcalls

end Monitor

/-- No wakeup is lost in either queue, for any group of threads. -/
theorem no_wakeup_is_lost (ι : Type*) [Fintype ι] [DecidableEq ι]
    (calloc mtxInit notEmptyInit notFullInit : Bool) (capacity : Int) :
    (∀ q, taskQueueInit calloc capacity = some q →
      ∀ acts : List (Action Task ι), Always (Monitor.step taskQueueCall) Monitor.NoLostWakeup (.start q) acts) ∧
    (∀ q, clientQueueInit calloc mtxInit notEmptyInit notFullInit capacity = some q →
      ∀ acts : List (Action Fd ι), Always (Monitor.step clientQueueCall) Monitor.NoLostWakeup (.start q) acts) := by
  constructor
  · intro q hq acts
    rw [taskQueueCall_eq]
    have hstart := Monitor.watched_start (ι := ι) (Ring.init_valid hq).1
    exact (always_of_step (fun _ _ _ h => Monitor.watched_step h) acts hstart).mono
      fun _ h => h.noLostWakeup
  · intro q hq acts
    rw [clientQueueCall_eq]
    have hstart := Monitor.watched_start (ι := ι) (Ring.init_valid (Option.filter_eq_some_iff.mp hq).1).1
    exact (always_of_step (fun _ _ _ h => Monitor.watched_step h) acts hstart).mono
      fun _ h => h.noLostWakeup

theorem no_wakeup_is_lost_default :
    (∃ q, taskQueueInit true 128 = some q ∧
      ∀ acts : List (Action Task (Fin 4)), Always (Monitor.step taskQueueCall) Monitor.NoLostWakeup (.start q) acts) ∧
    (∃ q, clientQueueInit true true true true 64 = some q ∧
      ∀ acts : List (Action Fd (Fin 5)), Always (Monitor.step clientQueueCall) Monitor.NoLostWakeup (.start q) acts) :=
  ⟨⟨_, rfl, (no_wakeup_is_lost (Fin 4) true true true true 128).1 _ rfl⟩,
    ⟨_, rfl, (no_wakeup_is_lost (Fin 5) true true true true 64).2 _ rfl⟩⟩

end Stash.Queue
