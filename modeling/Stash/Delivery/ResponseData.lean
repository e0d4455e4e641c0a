import Mathlib.Data.List.Nodup
import Stash.Delivery.SessionIds
import Stash.Foundation.Custody

/-! The data buffers of responses, over whole runs: a worker allocates one for its task,
`response_set` hands it to the session, and it is freed by the reset before the next task, with
the session, or by the worker that does not find the session. -/
namespace Stash.Delivery
open Foundation.Custody Foundation.Fifos Foundation.Runs Sessions Threads

/-- The machine with the tasks whose response data was passed to `free`. -/
structure DataMachine (κ ω : Type*) where
  machine : Machine κ ω
  freed : List Nat

/-- Where the response data of a task is, or the task that it will be the response to. -/
inductive DataPlace (ω : Type*) where
  | outstanding (place : JobPlace ω)
  | session (p : Nat)
  | freed

namespace Machine
variable {κ ω : Type*}

/-- The tasks whose response data a step passes to `free`. -/
def frees (m : Machine κ ω) : Action κ ω → List Nat
  | .reset c =>
    match m.client c with
    | .reading p _ => (m.heap.objects p).producedBy.toList
    | _ => []
  | .lookup w =>
    match m.worker w with
    | .delivering job _ => if m.heap.get job.task.sessionId = none then [job.serial] else []
    | _ => []
  | .destroy c =>
    match m.client c with
    | .closing _ id | .unfound id =>
      match m.heap.find id with
      | some (_, p) => (m.heap.objects p).producedBy.toList
      | none => []
    | _ => []
  | _ => []

end Machine

namespace DataMachine
variable {κ ω : Type*}

def start (capacity : Nat) : DataMachine κ ω := ⟨.start capacity, []⟩

def step [DecidableEq κ] [DecidableEq ω] (s : DataMachine κ ω) (a : Action κ ω) : Option (DataMachine κ ω) :=
  (s.machine.step a).map fun m => ⟨m, s.freed ++ s.machine.frees a⟩

/-- The response data of the task is in this place. -/
def Has (s : DataMachine κ ω) : DataPlace ω → Nat → Prop
  | .outstanding place, serial => ∃ job, s.machine.Holds place job ∧ job.serial = serial
  | .session p, serial =>
    (s.machine.heap.objects p).destroyed = false ∧ (s.machine.heap.objects p).producedBy = some serial
  | .freed, serial => serial ∈ s.freed

/-- Every task that was pushed has its response data in one place; none is freed twice, and a
client thread that sends a response reads data that has not been freed. -/
structure Accounted (s : DataMachine κ ω) : Prop where
  kept : Kept (fun serial => serial < s.machine.pushed) s.Has
  once : s.freed.Nodup
  read : ∀ c p id, s.machine.client c = .sending p id →
    ∃ serial, (s.machine.heap.objects p).producedBy = some serial ∧ serial ∉ s.freed

/-- What the steps keep: a response that is not ready has no data. -/
structure Stocked (s : DataMachine κ ω) : Prop where
  kept : Kept (fun serial => serial < s.machine.pushed) s.Has
  once : s.freed.Nodup
  blank : ∀ p, (s.machine.heap.objects p).ready = false → (s.machine.heap.objects p).producedBy = none
  unused : ∀ p, s.machine.heap.allocated ≤ p → (s.machine.heap.objects p).producedBy = none

variable {s : DataMachine κ ω} {m : Machine κ ω} {capacity : Nat}

theorem stocked_start : Stocked (start capacity : DataMachine κ ω) where
  kept := by
    refine ⟨fun serial h => by simp [start, Machine.start] at h, ?_, ?_⟩
    · rintro (place | p | _) place' serial hplace _
      · cases place <;> simp [Has, start, Machine.start, Machine.Holds, WorkerPhase.job] at hplace
      · simp [Has, start, Machine.start, newObject] at hplace
      · simp [Has, start] at hplace
    · rintro (place | p | _) serial hplace
      · cases place <;> simp [Has, start, Machine.start, Machine.Holds, WorkerPhase.job] at hplace
      · simp [Has, start, Machine.start, newObject] at hplace
      · simp [Has, start] at hplace
  once := List.nodup_nil
  blank _ _ := rfl
  unused _ _ := rfl

theorem Stocked.accounted (h : Stocked s) (ho : s.machine.Owned) (hd : s.machine.Delivering) : Accounted s where
  kept := h.kept
  once := h.once
  read c p id hc := by
    have hok := hd.client c
    rw [hc] at hok
    obtain ⟨serial, _, _, hproduced⟩ := hok
    obtain ⟨i, hi, _⟩ := ho.own c p (by rw [hc]; rfl)
    refine ⟨serial, hproduced, fun hfreed => ?_⟩
    have hplace : s.Has (.session p) serial := ⟨ho.live i p hi, hproduced⟩
    have hsame : DataPlace.session p = .freed := h.kept.single _ .freed _ hplace hfreed
    cases hsame

/-- No task moves, and every session keeps its response data. -/
theorem Stocked.frame (h : Stocked s) (hjobs : ∀ place job, m.Holds place job ↔ s.machine.Holds place job)
    (hpushed : m.pushed = s.machine.pushed)
    (hobjects : ∀ p, (m.heap.objects p).producedBy = (s.machine.heap.objects p).producedBy ∧
      ((s.machine.heap.objects p).producedBy ≠ none →
        (m.heap.objects p).destroyed = (s.machine.heap.objects p).destroyed) ∧
      ((m.heap.objects p).ready = false → (m.heap.objects p).producedBy = none))
    (hallocated : s.machine.heap.allocated ≤ m.heap.allocated) : Stocked ⟨m, s.freed⟩ where
  kept := by
    have hkept := h.kept
    rw [← hpushed] at hkept
    refine hkept.congr fun place serial => ?_
    cases place with
    | outstanding place => simp only [Has, hjobs]
    | session p =>
      obtain ⟨hproduced, hdestroyed, _⟩ := hobjects p
      simp only [Has, hproduced]
      constructor
      · rintro ⟨hlive, hserial⟩
        exact ⟨(hdestroyed (by rw [hserial]; exact Option.some_ne_none _)).symm.trans hlive, hserial⟩
      · rintro ⟨hlive, hserial⟩
        exact ⟨(hdestroyed (by rw [hserial]; exact Option.some_ne_none _)).trans hlive, hserial⟩
    | freed => exact Iff.rfl
  once := h.once
  blank p := (hobjects p).2.2
  unused p hp := (hobjects p).1.trans (h.unused p (Nat.le_trans hallocated hp))

/-- The response data of one task is freed. -/
theorem Stocked.free (h : Stocked s) {source : DataPlace ω} {serial : Nat} (hsource : s.Has source serial)
    (hne : source ≠ .freed) (hleft : ∀ i, Has ⟨m, s.freed ++ [serial]⟩ source i ↔ i ≠ serial ∧ s.Has source i)
    (hothers : ∀ place i, place ≠ source → place ≠ .freed → (Has ⟨m, s.freed ++ [serial]⟩ place i ↔ s.Has place i))
    (hpushed : m.pushed = s.machine.pushed)
    (hblank : ∀ p, (m.heap.objects p).ready = false → (m.heap.objects p).producedBy = none)
    (hunused : ∀ p, m.heap.allocated ≤ p → (m.heap.objects p).producedBy = none) :
    Stocked ⟨m, s.freed ++ [serial]⟩ where
  kept := by
    have hkept := h.kept
    rw [← hpushed] at hkept
    refine hkept.move source .freed hsource hleft (fun i => ?_) hothers
    simp only [Has, List.mem_append, List.mem_singleton]
    exact or_comm
  once := by
    have hnot : serial ∉ s.freed := fun hfreed => hne (h.kept.single _ .freed _ hsource hfreed)
    exact List.nodup_append.mpr ⟨h.once, List.nodup_singleton _, fun a ha b hb heq =>
      hnot (List.mem_singleton.mp hb ▸ heq ▸ ha)⟩
  blank := hblank
  unused := hunused

/-- The data of a session is freed, which then has none or is gone. -/
theorem Stocked.release (h : Stocked s) {p serial : Nat} (hlive : (s.machine.heap.objects p).destroyed = false)
    (hproduced : (s.machine.heap.objects p).producedBy = some serial)
    (hgone : (m.heap.objects p).destroyed = true ∨ (m.heap.objects p).producedBy = none)
    (hjobs : ∀ place job, m.Holds place job ↔ s.machine.Holds place job)
    (hothers : ∀ q, q ≠ p → m.heap.objects q = s.machine.heap.objects q) (hpushed : m.pushed = s.machine.pushed)
    (hblank : ∀ p, (m.heap.objects p).ready = false → (m.heap.objects p).producedBy = none)
    (hunused : ∀ p, m.heap.allocated ≤ p → (m.heap.objects p).producedBy = none) :
    Stocked ⟨m, s.freed ++ [serial]⟩ := by
  have hsource : s.Has (.session p) serial := ⟨hlive, hproduced⟩
  refine h.free hsource (by simp) (fun i => ?_) (fun place i hs hf => ?_) hpushed hblank hunused
  · constructor
    · rintro ⟨hlive', hproduced'⟩
      rcases hgone with hgone | hgone
      · rw [hgone] at hlive'
        cases hlive'
      · rw [hgone] at hproduced'
        cases hproduced'
    · rintro ⟨hne, _, hproduced'⟩
      exact absurd (Option.some.inj (hproduced'.symm.trans hproduced)) hne
  · cases place with
    | outstanding place => simp only [Has, hjobs]
    | session q =>
      have hq : q ≠ p := by
        rintro rfl
        exact hs rfl
      simp only [Has, hothers q hq]
    | freed => exact absurd rfl hf

theorem Stocked.modify (h : Stocked s) (p : Nat) {f : SessionObject → SessionObject}
    (hproduced : ∀ o, (f o).producedBy = o.producedBy) (hlive : ∀ o, (f o).destroyed = o.destroyed)
    (hready : ∀ o, (f o).ready = o.ready) : Stocked ⟨s.machine.setHeap (s.machine.heap.modify p f), s.freed⟩ := by
  refine h.frame (fun place job => by cases place <;> exact Iff.rfl) rfl (fun q => ?_) (Nat.le_refl _)
  by_cases hq : q = p
  · subst hq
    have hblank := h.blank q
    simpa [Machine.setHeap, hproduced, hlive, hready] using hblank
  · have hblank := h.blank q
    simpa [Machine.setHeap, hq] using hblank

section
variable [DecidableEq κ]

theorem Stocked.connect (h : Stocked s) (c : κ) (fault : CreateFault) (socketFd : Int)
    (phase : ClientPhase) :
    Stocked ⟨(s.machine.setHeap (s.machine.heap.create fault socketFd).1).setClient c phase, s.freed⟩ := by
  have hjobs : ∀ place job, ((s.machine.setHeap (s.machine.heap.create fault socketFd).1).setClient c phase).Holds
      place job ↔ s.machine.Holds place job := fun place job => by cases place <;> exact Iff.rfl
  refine h.frame hjobs rfl (fun p => ?_) ?_
  · rcases Heap.create_cases fault s.machine.heap socketFd with heq | heq | ⟨i, _, heq⟩
    · exact ⟨by simp [Machine.setClient, Machine.setHeap, heq], fun _ => by simp [Machine.setClient, Machine.setHeap, heq],
        by simpa [Machine.setClient, Machine.setHeap, heq] using h.blank p⟩
    · exact ⟨by simp [Machine.setClient, Machine.setHeap, heq], fun _ => by simp [Machine.setClient, Machine.setHeap, heq],
        by simpa [Machine.setClient, Machine.setHeap, heq] using h.blank p⟩
    · by_cases hp : p = s.machine.heap.allocated
      · subst hp
        have hunused := h.unused _ (Nat.le_refl _)
        simp [Machine.setClient, Machine.setHeap, heq, hunused, newObject]
      · simpa [Machine.setClient, Machine.setHeap, heq, hp] using h.blank p
  · rcases Heap.create_cases fault s.machine.heap socketFd with heq | heq | ⟨i, _, heq⟩
    · simp [Machine.setClient, Machine.setHeap, heq]
    · simp [Machine.setClient, Machine.setHeap, heq]
    · simp [Machine.setClient, Machine.setHeap, heq]

/-- The task that is pushed comes to the end of the queue. -/
theorem Stocked.enqueue (h : Stocked s) {c : κ} {p : Nat} {id : UInt64} {queue : Fifo Job} {job : Job}
    (hserial : job.serial = s.machine.pushed) (hitems : queue.items = s.machine.queue.items ++ [job]) :
    Stocked ⟨s.machine.enqueue queue c p id, s.freed⟩ := by
  have hobjects : ∀ q, ((s.machine.enqueue queue c p id).heap.objects q).producedBy =
        (s.machine.heap.objects q).producedBy ∧
      ((s.machine.enqueue queue c p id).heap.objects q).destroyed = (s.machine.heap.objects q).destroyed ∧
      ((s.machine.enqueue queue c p id).heap.objects q).ready = (s.machine.heap.objects q).ready := by
    intro q
    by_cases hq : q = p
    · subst hq
      simp [Machine.enqueue, SessionObject.push]
    · simp [Machine.enqueue, hq]
  refine ⟨h.kept.issue (.outstanding (.queued s.machine.queue.items.length))
    (Nat.lt_irrefl s.machine.pushed) (fun i => ?_) (fun place i => ?_), h.once, fun q hq => ?_, fun q hq => ?_⟩
  · change i < s.machine.pushed + 1 ↔ _
    omega
  · cases place with
    | outstanding place =>
      cases place with
      | held w => exact (or_iff_right (by simp)).symm
      | queued j =>
        have hat : ∀ x, (s.machine.enqueue queue c p id).Holds (.queued j : JobPlace ω) x ↔
            (j = s.machine.queue.items.length ∧ x = job) ∨ s.machine.Holds (.queued j : JobPlace ω) x := by
          intro x
          change queue.items[j]? = some x ↔ _ ∨ s.machine.queue.items[j]? = some x
          rw [hitems]
          rcases Nat.lt_trichotomy j s.machine.queue.items.length with hlt | rfl | hgt
          · rw [List.getElem?_append_left hlt]
            exact (or_iff_right fun hj => absurd hj.1 (Nat.ne_of_lt hlt)).symm
          · simp [eq_comm]
          · have hout : s.machine.queue.items[j]? = none := List.getElem?_eq_none (Nat.le_of_lt hgt)
            have hout' : (s.machine.queue.items ++ [job])[j]? = none := List.getElem?_eq_none (by simp; omega)
            simp [hout, hout', Nat.ne_of_gt hgt]
        simp only [Has, hat]
        constructor
        · rintro ⟨x, ⟨rfl, rfl⟩ | hx, rfl⟩
          · exact .inl ⟨hserial, rfl⟩
          · exact .inr ⟨x, hx, rfl⟩
        · rintro (⟨rfl, hplace⟩ | ⟨x, hx, rfl⟩)
          · exact ⟨job, .inl ⟨by simpa using hplace, rfl⟩, hserial⟩
          · exact ⟨x, .inr hx, rfl⟩
    | session q =>
      obtain ⟨hproduced, hdestroyed, _⟩ := hobjects q
      simp [Has, hproduced, hdestroyed]
    | freed => simp [Has]
  · obtain ⟨hproduced, _, hready⟩ := hobjects q
    rw [hproduced]
    exact h.blank q (hready.symm.trans hq)
  · exact (hobjects q).1.trans (h.unused q hq)

end

/-- The worker holds the response data of its task, and of no other. -/
theorem has_held {w : ω} {job : Job} (hw : (s.machine.worker w).job = some job) {i : Nat} :
    s.Has (.outstanding (.held w)) i ↔ i = job.serial := by
  constructor
  · rintro ⟨x, hx, rfl⟩
    rw [Machine.Holds, hw] at hx
    rw [Option.some.inj hx]
  · rintro rfl
    exact ⟨job, hw, rfl⟩

theorem not_has_held {w : ω} (hw : (s.machine.worker w).job = none) (i : Nat) : ¬ s.Has (.outstanding (.held w)) i := by
  rintro ⟨x, hx, _⟩
  rw [Machine.Holds, hw] at hx
  cases hx

section
variable [DecidableEq ω]

/-- A worker goes on with its task, or without one that it never had. -/
theorem Stocked.work (h : Stocked s) {w : ω} (phase : WorkerPhase) (hjob : phase.job = (s.machine.worker w).job) :
    Stocked ⟨s.machine.setWorker w phase, s.freed⟩ := by
  refine h.frame (fun place job => ?_) rfl (fun p => ⟨rfl, fun _ => rfl, h.blank p⟩) (Nat.le_refl _)
  cases place with
  | queued i => exact Iff.rfl
  | held w' =>
    change ((s.machine.setWorker w phase).worker w').job = some job ↔ _
    by_cases he : w' = w
    · subst he
      rw [Machine.setWorker_self, hjob]
      exact Iff.rfl
    · rw [Machine.setWorker_of_ne _ he]
      exact Iff.rfl

theorem Stocked.pop (h : Stocked s) {w : ω} {queue : Fifo Job} {job : Job} (hw : s.machine.worker w = .idle)
    (hitems : s.machine.queue.items = job :: queue.items) :
    Stocked ⟨(s.machine.setQueue queue).setWorker w (.processing job), s.freed⟩ where
  kept := by
    let back : DataPlace ω → DataPlace ω
      | .outstanding place => .outstanding (Machine.beforePop w place)
      | .session p => .session p
      | .freed => .freed
    have hback : Function.Injective back := by
      rintro (place | p | _) (place' | p' | _) heq
      all_goals simp only [back, DataPlace.outstanding.injEq, DataPlace.session.injEq, reduceCtorEq] at heq
      · rw [Machine.beforePop_injective w heq]
      · rw [heq]
      · rfl
    refine h.kept.rename back hback (fun place serial hplace => ?_) (fun place serial hplace => ?_)
    · rcases place with (i | w') | p | _
      · obtain ⟨x, hx, rfl⟩ := hplace
        change s.machine.queue.items[i]? = some x at hx
        rw [hitems] at hx
        cases i with
        | zero =>
          obtain rfl := Option.some.inj hx
          exact ⟨.outstanding (.held w), job, by simp [Machine.Holds, WorkerPhase.job], rfl⟩
        | succ i => exact ⟨.outstanding (.queued i), x, hx, rfl⟩
      · obtain ⟨x, hx, rfl⟩ := hplace
        have hne : w' ≠ w := by
          rintro rfl
          rw [Machine.Holds, hw] at hx
          cases hx
        refine ⟨.outstanding (.held w'), x, ?_, rfl⟩
        rw [Machine.Holds, Machine.setWorker_of_ne _ hne]
        exact hx
      · exact ⟨.session p, hplace⟩
      · exact ⟨.freed, hplace⟩
    · rcases place with place | p | _
      · obtain ⟨x, hx, rfl⟩ := hplace
        exact ⟨x, Machine.holds_pop hitems hx, rfl⟩
      · exact hplace
      · exact hplace
  once := h.once
  blank := h.blank
  unused := h.unused

/-- The other workers have what they had. -/
theorem has_outstanding {w : ω} {phase : WorkerPhase} {freed : List Nat} {place : JobPlace ω} (hplace : place ≠ .held w)
    (i : Nat) : Has ⟨s.machine.setWorker w phase, freed⟩ (.outstanding place) i ↔ s.Has (.outstanding place) i := by
  cases place with
  | queued j => exact Iff.rfl
  | held w' =>
    have hne : w' ≠ w := by
      rintro rfl
      exact hplace rfl
    simp only [Has, Machine.Holds, Machine.setWorker_of_ne _ hne]

/-- A worker that does not find the session frees the response data. -/
theorem Stocked.drop (h : Stocked s) {w : ω} {job : Job} (hw : (s.machine.worker w).job = some job) :
    Stocked ⟨s.machine.setWorker w .idle, s.freed ++ [job.serial]⟩ := by
  refine h.free ((has_held hw).mpr rfl) (by simp) (fun i => ?_) (fun place i hs hf => ?_) rfl h.blank h.unused
  · rw [has_held hw]
    refine iff_of_false (not_has_held ?_ i) fun hi => hi.1 hi.2
    rw [Machine.setWorker_self]
    rfl
  · rcases place with place | p | _
    · exact has_outstanding (fun heq => hs (congrArg _ heq)) i
    · exact Iff.rfl
    · exact absurd rfl hf

/-- `response_set` hands the data to a session that has none. -/
theorem Stocked.set (h : Stocked s) {w : ω} {job : Job} {p : Nat} (response : Response)
    (hw : (s.machine.worker w).job = some job) (hlive : (s.machine.heap.objects p).destroyed = false)
    (hready : (s.machine.heap.objects p).ready = false) (hp : p < s.machine.heap.allocated) :
    Stocked ⟨(s.machine.setHeap (s.machine.heap.modify p fun o => o.set job.serial response)).setWorker w (.counting p),
      s.freed⟩ := by
  refine ⟨h.kept.move (.outstanding (.held w)) (.session p) ((has_held hw).mpr rfl) (fun i => ?_) (fun i => ?_) fun place i hs ht => ?_,
    h.once, fun q hq => ?_, fun q hq => ?_⟩
  · rw [has_held hw]
    refine iff_of_false (not_has_held ?_ i) fun hi => hi.1 hi.2
    rw [Machine.setWorker_self]
    rfl
  · have hblank := h.blank p hready
    simp [Has, Machine.setWorker, Machine.setHeap, SessionObject.set, hlive, hblank, eq_comm]
  · rcases place with place | q | _
    · exact has_outstanding (s := ⟨s.machine.setHeap _, s.freed⟩) (fun heq => hs (congrArg _ heq)) i
    · have hq : q ≠ p := by
        rintro rfl
        exact ht rfl
      simp [Has, Machine.setWorker, Machine.setHeap, hq]
    · exact Iff.rfl
  · by_cases he : q = p
    · subst he
      simp [Machine.setWorker, Machine.setHeap, SessionObject.set] at hq
    · simpa [Machine.setWorker, Machine.setHeap, he] using h.blank q (by simpa [Machine.setWorker, Machine.setHeap, he] using hq)
  · have hne : q ≠ p := Nat.ne_of_gt (Nat.lt_of_lt_of_le hp hq)
    simpa [Machine.setWorker, Machine.setHeap, hne] using h.unused q hq

end

section
variable [DecidableEq κ]

/-- A client thread goes on, and its session is as it was. -/
theorem Stocked.goOn (h : Stocked s) (c : κ) (phase : ClientPhase) :
    Stocked ⟨s.machine.setClient c phase, s.freed⟩ :=
  h.frame (fun place job => by cases place <;> exact Iff.rfl) rfl (fun p => ⟨rfl, fun _ => rfl, h.blank p⟩) (Nat.le_refl _)

/-- The reset before the next task frees the data of the response. -/
theorem Stocked.reset (h : Stocked s) {c : κ} {p : Nat} {id : UInt64} (hc : s.machine.client c = .reading p id)
    (hlive : (s.machine.heap.objects p).destroyed = false) (hp : p < s.machine.heap.allocated) :
    Stocked ⟨(s.machine.setHeap (s.machine.heap.modify p SessionObject.reset)).setClient c (.pushing p id),
      s.freed ++ s.machine.frees (.reset c : Action κ ω)⟩ := by
  have hfrees : s.machine.frees (.reset c : Action κ ω) = (s.machine.heap.objects p).producedBy.toList := by
    simp [Machine.frees, hc]
  have hother : ∀ q, q ≠ p → (s.machine.heap.modify p SessionObject.reset).objects q = s.machine.heap.objects q :=
    fun q hq => Function.update_of_ne hq _ _
  have hreset : ((s.machine.heap.modify p SessionObject.reset).objects p).producedBy = none := by simp [SessionObject.reset]
  have hblank : ∀ q, ((s.machine.heap.modify p SessionObject.reset).objects q).ready = false →
      ((s.machine.heap.modify p SessionObject.reset).objects q).producedBy = none := by
    intro q hq
    by_cases he : q = p
    · subst he
      exact hreset
    · rw [hother q he] at hq ⊢
      exact h.blank q hq
  rw [hfrees]
  cases hproduced : (s.machine.heap.objects p).producedBy with
  | none =>
    rw [Option.toList_none, List.append_nil]
    have hmodified : Stocked ⟨s.machine.setHeap (s.machine.heap.modify p SessionObject.reset), s.freed⟩ := by
      refine h.frame (fun place job => by cases place <;> exact Iff.rfl) rfl (fun q => ⟨?_, fun hq => ?_, hblank q⟩)
        (Nat.le_refl _)
      · by_cases he : q = p
        · subst he
          exact hreset.trans hproduced.symm
        · rw [Machine.setHeap, hother q he]
      · have he : q ≠ p := by
          rintro rfl
          exact hq hproduced
        rw [Machine.setHeap, hother q he]
    exact hmodified.goOn c _
  | some serial =>
    exact h.release hlive hproduced (.inr hreset) (fun place job => by cases place <;> exact Iff.rfl) hother rfl hblank
      fun q hq => by
        have he : q ≠ p := Nat.ne_of_gt (Nat.lt_of_lt_of_le hp hq)
        rw [Machine.setClient, Machine.setHeap, hother q he]
        exact h.unused q hq

/-- `session_destroy` frees the data with the session. -/
theorem Stocked.destroy (h : Stocked s) (ho : s.machine.Owned) {c : κ} {id : UInt64}
    (hc : (∃ p, s.machine.client c = .closing p id) ∨ s.machine.client c = .unfound id) :
    Stocked ⟨(s.machine.setHeap (s.machine.heap.destroy id)).setClient c .idle,
      s.freed ++ s.machine.frees (.destroy c : Action κ ω)⟩ := by
  have hfrees : s.machine.frees (.destroy c : Action κ ω) =
      match s.machine.heap.find id with
      | some (_, p) => (s.machine.heap.objects p).producedBy.toList
      | none => [] := by
    rcases hc with ⟨p, hc⟩ | hc
    · simp [Machine.frees, hc]
    · simp [Machine.frees, hc]
  rw [hfrees]
  unfold Heap.destroy
  cases hfind : s.machine.heap.find id with
  | none =>
    rw [List.append_nil]
    exact h.goOn c _
  | some found =>
    obtain ⟨i, p⟩ := found
    obtain ⟨hslot, _, _⟩ := Heap.find_some hfind
    have hother : ∀ q, q ≠ p → (s.machine.heap.remove i p).objects q = s.machine.heap.objects q :=
      fun q hq => Function.update_of_ne hq _ _
    have hfreed : ((s.machine.heap.remove i p).objects p).destroyed = true := by simp [SessionObject.free]
    have hproducedBy : ∀ q, ((s.machine.heap.remove i p).objects q).producedBy = (s.machine.heap.objects q).producedBy := by
      intro q
      by_cases he : q = p
      · subst he
        simp [SessionObject.free, SessionObject.markInactive]
      · rw [hother q he]
    have hblank : ∀ q, ((s.machine.heap.remove i p).objects q).ready = false →
        ((s.machine.heap.remove i p).objects q).producedBy = none := by
      intro q hq
      rw [hproducedBy]
      by_cases he : q = p
      · subst he
        exact h.blank q (by simpa [SessionObject.free, SessionObject.markInactive] using hq)
      · rw [hother q he] at hq
        exact h.blank q hq
    simp only
    cases hproduced : (s.machine.heap.objects p).producedBy with
    | none =>
      rw [Option.toList_none, List.append_nil]
      have hremoved : Stocked ⟨s.machine.setHeap (s.machine.heap.remove i p), s.freed⟩ := by
        refine h.frame (fun place job => by cases place <;> exact Iff.rfl) rfl
          (fun q => ⟨hproducedBy q, fun hq => ?_, hblank q⟩) (Nat.le_refl _)
        have he : q ≠ p := by
          rintro rfl
          exact hq hproduced
        rw [Machine.setHeap, hother q he]
      exact hremoved.goOn c _
    | some serial =>
      exact h.release (ho.live i p hslot) hproduced (.inl hfreed) (fun place job => by cases place <;> exact Iff.rfl)
        hother rfl hblank fun q hq => (hproducedBy q).trans (h.unused q hq)

end

section
variable [DecidableEq κ] [DecidableEq ω]

/-- Every step leaves the response data of every task in one place. -/
theorem stocked_step {s' : DataMachine κ ω} {a : Action κ ω} (h : Stocked s) (ho : s.machine.Owned)
    (hd : s.machine.Delivering) (hstep : s.step a = some s') : Stocked s' := by
  obtain ⟨m', hm', rfl⟩ := Option.map_eq_some_iff.mp hstep
  have live : ∀ {c : κ} {p : Nat}, (s.machine.client c).pointer = some p →
      (s.machine.heap.objects p).destroyed = false ∧ p < s.machine.heap.allocated := by
    intro c p hp
    obtain ⟨i, hi, _⟩ := ho.own c p hp
    exact ⟨ho.live i p hi, ho.below i p hi⟩
  have quiet : ∀ {m'' : Machine κ ω}, s.machine.frees a = [] → Stocked ⟨m'', s.freed⟩ →
      Stocked ⟨m'', s.freed ++ s.machine.frees a⟩ := by
    intro m'' hfrees hm''
    rwa [hfrees, List.append_nil]
  cases Machine.step_moves hm' with
  | @connect c fault socketFd hc => exact quiet rfl (h.connect c fault socketFd _)
  | found hc hget => exact quiet rfl (h.goOn _ _)
  | unfound hc hget => exact quiet rfl (h.goOn _ _)
  | @reset c p id hc =>
    obtain ⟨hlive, hp⟩ := live (c := c) (p := p) (by rw [hc]; rfl)
    exact h.reset hc hlive hp
  | pushed hc hcall => exact quiet rfl (h.enqueue rfl (Fifo.items_of_pushed hcall))
  | refused hc => exact quiet rfl (h.goOn _ _)
  | wake hc hready => exact quiet rfl (h.goOn _ _)
  | active hc => exact quiet rfl (h.goOn _ _)
  | inactive hc => exact quiet rfl (h.goOn _ _)
  | send hc =>
    refine quiet rfl (h.frame (fun place job => ?_) rfl (fun p => ⟨rfl, fun _ => rfl, h.blank p⟩) (Nat.le_refl _))
    cases place <;> exact Iff.rfl
  | quit hc => exact quiet rfl (h.goOn _ _)
  | @markInactive c p id hc =>
    refine quiet rfl ?_
    have hmarked : Stocked ⟨s.machine.setHeap (s.machine.heap.markInactive id), s.freed⟩ := by
      unfold Heap.markInactive
      split
      · exact h.modify _ (fun _ => rfl) (fun _ => rfl) fun _ => rfl
      · exact h
    exact hmarked.goOn c _
  | destroy hc => exact h.destroy ho hc
  | pop hw hcall => exact quiet rfl (h.pop hw (Fifo.items_of_popped hcall))
  | ended hw => exact quiet rfl (h.work _ (by rw [hw]; rfl))
  | produce hw => exact quiet rfl (h.work _ (by rw [hw]; rfl))
  | lookup hw hget => exact quiet (by simp [Machine.frees, hw, hget]) (h.work _ (by rw [hw]; rfl))
  | @dropped w response job hw hget =>
    have hfrees : s.machine.frees (.lookup w : Action κ ω) = [job.serial] := by simp [Machine.frees, hw, hget]
    rw [hfrees]
    exact h.drop (by rw [hw]; rfl)
  | @set w response job p hw =>
    refine quiet rfl ?_
    -- The client thread that waits for the response has the session.
    have hheld : s.machine.Holds (.held w) job := by
      change (s.machine.worker w).job = some job
      rw [hw]
      rfl
    obtain ⟨c, hc, hready, _⟩ := hd.job _ job hheld
    obtain rfl := hd.addressed w job response p hw
    obtain ⟨hlive, hp⟩ := live (c := c) (p := job.session) (by rw [hc]; rfl)
    exact h.set response (by rw [hw]; rfl) hlive hready hp
  | @count w p hw =>
    have hmodified := h.modify p (f := SessionObject.increment) (fun _ => rfl) (fun _ => rfl) fun _ => rfl
    exact quiet rfl (hmodified.work (w := w) _ (by rw [Machine.setHeap, hw]; rfl))
  | report hw => exact quiet rfl (h.work _ (by rw [hw]; rfl))
  | shutdown =>
    refine quiet rfl (h.frame (fun place job => ?_) rfl (fun p => ⟨rfl, fun _ => rfl, h.blank p⟩) (Nat.le_refl _))
    cases place <;> exact Iff.rfl

/-- In every run that is shorter than the session ids last, the response data of every task is in
one place, freed once at most, and never read behind that. -/
theorem response_data_freed_once {acts : List (Action κ ω)} (capacity : Nat) (hlength : acts.length < 2 ^ 64 - 1) :
    Always step Accounted (start capacity) acts := by
  have moved : ∀ {s s' : DataMachine κ ω} {a : Action κ ω}, s.step a = some s' → s.machine.step a = some s'.machine := by
    intro s s' a hstep
    obtain ⟨m', hm', rfl⟩ := Option.map_eq_some_iff.mp hstep
    exact hm'
  have hfresh : Along step (fun s a => s.machine.FreshId a ∧ s.machine.Unwrapped a) (start capacity) acts := by
    refine along_of_budget (fun s => s.machine.Owned ∧ s.machine.Numbered)
      (fun s => s.machine.heap.nextSessionId.toNat) (2 ^ 64 - 1) ?_ (fun s a hs _ => hs.2.fresh a)
      ⟨Machine.owned_start capacity, Machine.numbered_start capacity⟩ ?_
    · rintro s a s' ⟨ho, hn⟩ hlt hstep
      have hmoves := Machine.step_moves (moved hstep)
      obtain ⟨hn', hcost⟩ := Machine.numbered_step hn ho hlt hmoves
      exact ⟨⟨Machine.owned_step ho (hn.fresh a).1 hmoves, hn'⟩, hcost⟩
    · have hone : (start capacity : DataMachine κ ω).machine.heap.nextSessionId.toNat = 1 := rfl
      omega
  have hkept : Always step (fun s => s.machine.Owned ∧ s.machine.Delivering ∧ Stocked s) (start capacity) acts := by
    refine Along.always ?_ ⟨Machine.owned_start capacity, Machine.delivering_start capacity, stocked_start⟩ hfresh
    rintro s a s' ⟨ho, hd, hs⟩ hp hstep
    have hmoves := Machine.step_moves (moved hstep)
    exact ⟨Machine.owned_step ho hp.1 hmoves, Machine.delivering_step hd ho hmoves, stocked_step hs ho hd hstep⟩
  exact hkept.mono fun s hs => hs.2.2.accounted hs.1 hs.2.1

end

end DataMachine

/-- A response is sent, and freed with the session when the client quits. -/
def freedRun : List (Action (Fin 1) (Fin 1)) :=
  listRun ++ [.quit (Fin.last 0), .markInactive (Fin.last 0), .destroy (Fin.last 0)]

theorem response_data_freed_once_list :
    (run DataMachine.step (DataMachine.start 100) freedRun).map DataMachine.freed = some [0] ∧
      Always DataMachine.step DataMachine.Accounted (DataMachine.start 100) freedRun :=
  ⟨by decide +kernel, DataMachine.response_data_freed_once 100 (by decide)⟩

end Stash.Delivery
