import Mathlib.Tactic.IntervalCases
import Stash.Delivery.Attention
import Stash.Delivery.ClosedOnce
import Stash.Foundation.Tallies

/-! The end of the server: once `main` has left the accept loop, and the clients send no more
commands and hang up, every thread ends and `main` returns. -/
namespace Stash.Delivery
open Foundation.Descriptors Foundation.FairRuns Foundation.Fifos Foundation.Runs Foundation.Tallies Sessions Threads

/-- A thread of the server. -/
inductive Thread (κ ω : Type*) where
  | main
  | client (c : κ)
  | worker (w : ω)

/-- Who takes a step: a thread, or the client at the other end of a client thread's connection. -/
inductive Party (κ ω : Type*) where
  | thread (t : Thread κ ω)
  | remote (c : κ)

/-- Commands and the end of a connection come from the client. -/
def Action.party {κ ω : Type*} : Action κ ω → Option (Party κ ω)
  | .connect c _ _ | .get c | .push c _ | .wake c | .check c | .send c _ | .markInactive c | .destroy c =>
    some (.thread (.client c))
  | .reset c | .quit c => some (.remote c)
  | .pop w | .produce w _ | .lookup w | .set w | .count w | .report w => some (.thread (.worker w))
  | .shutdown => none

/-- A new connection comes from outside. -/
def Event.party {κ ω : Type*} : Event κ ω → Option (Party κ ω)
  | .offer | .reject | .stop | .closeClients | .closeTasks | .managerDestroy => some (.thread .main)
  | .take c | .drop c | .connect c _ | .destroy c => some (.thread (.client c))
  | .act a => a.party
  | .accept _ | .interrupt => none

/-- The steps of a party. -/
def Event.By {κ ω : Type*} (i : Party κ ω) (e : Event κ ω) : Prop := e.party = some i

/-- The steps that a thread of the server takes by itself. -/
def Event.Own {κ ω : Type*} (t : Thread κ ω) (e : Event κ ω) : Prop := e.By (.thread t)

/-- How many steps a client thread has before it with its session, the one of the task included. -/
def ClientPhase.cost : ClientPhase → Nat
  | .idle => 0
  | .closing _ _ => 1
  | .leaving _ _ | .unfound _ => 2
  | .reading _ _ => 3
  | .sending _ _ | .created _ => 4
  | .woken _ _ => 5
  | .waiting _ _ => 6
  | .pushing _ _ => 14

def Hand.cost : Hand → Nat
  | .exited | .dropped => 0
  | .empty | .serving _ => 1
  | .failed _ => 2
  | .popped _ => 7

/-- `main` has not shut anything down. -/
def MainPhase.isOpen : MainPhase → Bool
  | .accepting | .offering _ | .rejecting _ | .closingClients => true
  | .closingTasks | .joining | .returned => false

/-- `main` is behind the accept loop. -/
def MainPhase.isClosing : MainPhase → Bool
  | .closingClients | .closingTasks | .joining => true
  | .accepting | .offering _ | .rejecting _ | .returned => false

def MainPhase.cost : MainPhase → Nat
  | .closingClients => 3
  | .closingTasks => 2
  | .joining => 1
  | .accepting | .offering _ | .rejecting _ | .returned => 0

namespace Machine
variable {κ ω : Type*} {m m' : Machine κ ω}

/-- A queue that is shut down stays so. -/
theorem shutdown_step [DecidableEq κ] [DecidableEq ω] {a : Action κ ω} (hstep : Moves m a m') (hshut : m.queue.shutdown = true) :
    m'.queue.shutdown = true := by
  cases hstep with
  | pushed hc hcall => exact absurd (hshut.symm.trans (Fifo.open_of_pushed hcall).1) (by decide)
  | pop hw hcall => exact (Fifo.shutdown_of_popped hcall).trans hshut
  | shutdown => rfl
  | _ => exact hshut

section
variable [Fintype κ] [Fintype ω]

/-- The steps of all threads with the sessions and tasks that there are. -/
def toil (m : Machine κ ω) : Nat := ∑ c, (m.client c).cost + 7 * m.queue.items.length + m.load

theorem toil_setClient [DecidableEq κ] (m : Machine κ ω) (c : κ) (phase : ClientPhase) :
    (m.setClient c phase).toil + (m.client c).cost = m.toil + phase.cost := by
  have hsum := sum_update ClientPhase.cost m.client c phase
  simp only [toil, setClient]
  change ∑ j, (Function.update m.client c phase j).cost + 7 * m.queue.items.length + m.load + (m.client c).cost = _
  omega

theorem toil_setWorker [DecidableEq ω] (m : Machine κ ω) (w : ω) (phase : WorkerPhase) :
    (m.setWorker w phase).toil + (m.worker w).cost = m.toil + phase.cost := by
  have hload := load_setWorker m w phase
  change ∑ c, (m.client c).cost + 7 * m.queue.items.length + (m.setWorker w phase).load + (m.worker w).cost =
    ∑ c, (m.client c).cost + 7 * m.queue.items.length + m.load + phase.cost
  omega

theorem toil_setQueue (m : Machine κ ω) (queue : Fifo Job) :
    (m.setQueue queue).toil + 7 * m.queue.items.length = m.toil + 7 * queue.items.length := by
  change ∑ c, (m.client c).cost + 7 * queue.items.length + m.load + _ = _
  rw [toil]
  omega

variable [DecidableEq κ] [DecidableEq ω]

/-- With every step of a thread there is less to do, but for the commands that come. -/
theorem toil_step {a : Action κ ω} (hplain : a.plain = true) (hreset : ∀ c, a ≠ .reset c) (hshut : a ≠ .shutdown)
    (hstep : Moves m a m') : m'.toil < m.toil := by
  have moved : ∀ {m'' : Machine κ ω} {c : κ} {phase : ClientPhase}, m''.toil = m.toil → m''.client = m.client →
      phase.cost < (m.client c).cost → (m''.setClient c phase).toil < m.toil := by
    intro m'' c phase htoil hclient hcost
    have hchange := toil_setClient m'' c phase
    rw [htoil, hclient] at hchange
    omega
  have worked : ∀ {m'' : Machine κ ω} {w : ω} {phase : WorkerPhase}, m''.toil = m.toil → m''.worker = m.worker →
      phase.cost < (m.worker w).cost → (m''.setWorker w phase).toil < m.toil := by
    intro m'' w phase htoil hworker hcost
    have hchange := toil_setWorker m'' w phase
    rw [htoil, hworker] at hchange
    omega
  cases hstep with
  | connect hc => cases hplain
  | destroy hc => cases hplain
  | found hc hget => exact moved rfl rfl (by simp [hc, ClientPhase.cost])
  | unfound hc hget => exact moved rfl rfl (by simp [hc, ClientPhase.cost])
  | reset hc => exact absurd rfl (hreset _)
  | @pushed c task p id queue job hc hcall =>
    have hlength := congrArg List.length (Fifo.items_of_pushed hcall)
    have hclient := toil_setClient m c (.waiting p id)
    have hqueue := toil_setQueue (m.setClient c (.waiting p id)) queue
    change (m.enqueue queue c p id).toil + 7 * m.queue.items.length = _ at hqueue
    rw [hc] at hclient
    simp only [ClientPhase.cost] at hclient
    rw [List.length_append, List.length_singleton] at hlength
    omega
  | refused hc => exact moved rfl rfl (by simp [hc, ClientPhase.cost])
  | wake hc hready => exact moved rfl rfl (by simp [hc, ClientPhase.cost])
  | active hc => exact moved rfl rfl (by simp [hc, ClientPhase.cost])
  | inactive hc => exact moved rfl rfl (by simp [hc, ClientPhase.cost])
  | @send c ok p id hc =>
    cases ok with
    | true => exact @moved _ c (.reading p id) rfl rfl (by simp [hc, ClientPhase.cost])
    | false => exact @moved _ c (.leaving p id) rfl rfl (by simp [hc, ClientPhase.cost])
  | quit hc => exact moved rfl rfl (by simp [hc, ClientPhase.cost])
  | markInactive hc => exact moved rfl rfl (by simp [hc, ClientPhase.cost])
  | @pop w queue job hw hcall =>
    have hlength := congrArg List.length (Fifo.items_of_popped hcall)
    have hworker := toil_setWorker m w (.processing job)
    have hqueue := toil_setQueue (m.setWorker w (.processing job)) queue
    change ((m.setQueue queue).setWorker w (.processing job)).toil + 7 * m.queue.items.length = _ at hqueue
    rw [hw] at hworker
    simp only [WorkerPhase.cost] at hworker
    rw [List.length_cons] at hlength
    omega
  | ended hw => exact worked rfl rfl (by simp [hw, WorkerPhase.cost])
  | produce hw => exact worked rfl rfl (by simp [hw, WorkerPhase.cost])
  | lookup hw hget => exact worked rfl rfl (by simp [hw, WorkerPhase.cost])
  | dropped hw hget => exact worked rfl rfl (by simp [hw, WorkerPhase.cost])
  | set hw => exact worked rfl rfl (by simp [hw, WorkerPhase.cost])
  | count hw => exact worked rfl rfl (by simp [hw, WorkerPhase.cost])
  | report hw => exact worked rfl rfl (by simp [hw, WorkerPhase.cost])
  | shutdown => exact absurd rfl hshut

end

end Machine

namespace ServerProcess
variable {κ ω : Type*}

/-- A session is destroyed whose slot no other session is stored behind. -/
def KeepsChain (s : ServerProcess κ ω) : Event κ ω → Prop
  | .destroy c => s.machine.KeepsChain (.destroy c)
  | _ => True

/-- What the steps keep that meet the condition. -/
structure Lively [Fintype ω] (s : ServerProcess κ ω) : Prop where
  base : Base s
  attended : Attended s
  machine : s.main ≠ .returned → s.machine.Tended ∧ s.machine.Found ∧ s.machine.Awaited
  clientsShut : s.main = .closingTasks ∨ s.main = .joining → s.clients.shutdown = true
  tasksShut : s.main = .joining → s.machine.queue.shutdown = true
  joined : s.main = .returned → ∀ w, s.machine.worker w = .exited

/-- `main` stays where it is, or gets to its last phases one after the other. -/
inductive Advances (s s' : ServerProcess κ ω) : Prop
  | stays (hsame : s'.main = s.main)
  | opened (hbefore : s.main.isOpen = true) (hafter : s'.main.isOpen = true)
  | clients (hbefore : s.main = .closingClients) (hafter : s'.main = .closingTasks) (hshut : s'.clients.shutdown = true)
  | tasks (hbefore : s.main = .closingTasks) (hafter : s'.main = .joining) (hshut : s'.machine.queue.shutdown = true)
  | threads (hbefore : s.main = .joining) (hafter : s'.main = .returned) (hended : ∀ w, s.machine.worker w = .exited)

variable {s s' : ServerProcess κ ω}

theorem lively_start [Fintype ω] (capacity taskCapacity : Nat) : Lively (start capacity taskCapacity : ServerProcess κ ω) where
  base := base_start capacity taskCapacity
  attended := attended_start capacity taskCapacity
  machine _ := ⟨Machine.tended_start taskCapacity, Machine.found_start taskCapacity, Machine.awaited_start taskCapacity⟩
  clientsShut := by simp [start]
  tasksShut := by simp [start]
  joined := by simp [start]

theorem worker_of_isExited {phase : WorkerPhase} (h : phase.isExited = true) : phase = .exited := by
  cases phase <;> simp_all [WorkerPhase.isExited]

theorem worker_destroySlots (slots : List Nat) (s : ServerProcess κ ω) :
    (slots.foldl destroySlot s).machine.worker = s.machine.worker := by
  induction slots generalizing s with
  | nil => rfl
  | cons i rest ih =>
    rw [List.foldl_cons, ih, destroySlot]
    split <;> rfl

section
variable [DecidableEq κ] [DecidableEq ω]

/-- Before the end every step leaves the machine as it is or is one of its own. -/
theorem machine_step {e : Event κ ω} (hstep : Moves s e s') : s'.main = .returned ∨ s'.machine = s.machine ∨
    ∃ a, s.machine.step a = some s'.machine ∧ (s.KeepsChain e → s.machine.KeepsChain a) := by
  cases hstep with
  | connect hhand hmachine => exact .inr (.inr ⟨_, hmachine, fun _ => trivial⟩)
  | @destroy c id m hhand hmachine => exact .inr (.inr ⟨.destroy c, hmachine, fun hkeeps => hkeeps⟩)
  | @act a m hplain hmachine =>
    refine .inr (.inr ⟨a, hmachine, fun _ => ?_⟩)
    cases a with
    | destroy c => cases hplain
    | _ => trivial
  | closeTasks hmain hmachine => exact .inr (.inr ⟨.shutdown, hmachine, fun _ => trivial⟩)
  | managerDestroy hmain hhands hworkers => exact .inl rfl
  | _ => exact .inr (.inl rfl)

/-- A client thread that has not found its session would have to close its connection. -/
theorem Lively.noDrop [Fintype ω] (h : Lively s) {e : Event κ ω} (hstep : Moves s e s') : NoDrop s e := by
  cases hstep with
  | dropFailed hhand =>
    intro conn
    rw [hhand]
    simp
  | @dropUnfound c conn id hhand hclient =>
    intro conn'
    by_cases hmain : s.main = .returned
    · rw [(h.attended.returned hmain).1 c]
      simp
    · exact absurd hclient ((h.machine hmain).2.1.unfound c id)
  | _ => trivial

theorem clientsShut_step {e : Event κ ω} (hstep : Moves s e s') (hmain : s'.main ≠ .returned)
    (hshut : s.clients.shutdown = true) : s'.clients.shutdown = true := by
  cases hstep with
  | pushed hoffering hcall => exact absurd (hshut.symm.trans (Fifo.open_of_pushed hcall).1) (by decide)
  | popped hhand hcall => exact (Fifo.shutdown_of_popped hcall).trans hshut
  | closeClients hclosing => rfl
  | interrupt => rfl
  | managerDestroy hjoining hhands hworkers => exact absurd rfl hmain
  | _ => exact hshut

/-- A worker that has ended stays ended. -/
theorem exited_event {e : Event κ ω} (hstep : Moves s e s') {w : ω} (hw : s.machine.worker w = .exited) :
    s'.machine.worker w = .exited := by
  cases hstep with
  | connect hhand hmachine => exact Machine.exited_step (Machine.step_moves hmachine) hw
  | destroy hhand hmachine => exact Machine.exited_step (Machine.step_moves hmachine) hw
  | act hplain hmachine => exact Machine.exited_step (Machine.step_moves hmachine) hw
  | closeTasks hmain hmachine => exact Machine.exited_step (Machine.step_moves hmachine) hw
  | managerDestroy hmain hhands hworkers =>
    have hworker : s.sessionManagerDestroy.machine.worker = s.machine.worker := by
      rw [sessionManagerDestroy, worker_destroySlots]
    generalize s.sessionManagerDestroy = final at hworker ⊢
    exact (congrFun hworker w).trans hw
  | _ => exact hw

theorem main_step {e : Event κ ω} (hstep : Moves s e s') : Advances s s' := by
  cases hstep with
  | accept hmain hfd hfree => exact .opened (by rw [hmain]; rfl) rfl
  | pushed hmain hcall => exact .opened (by rw [hmain]; rfl) rfl
  | refused hmain => exact .opened (by rw [hmain]; rfl) rfl
  | reject hmain => exact .opened (by rw [hmain]; rfl) rfl
  | stop hmain => exact .opened (by rw [hmain]; rfl) rfl
  | closeClients hmain => exact .clients hmain rfl rfl
  | closeTasks hmain hmachine =>
    cases Machine.step_moves hmachine with
    | shutdown => exact .tasks hmain rfl rfl
  | managerDestroy hmain hhands hworkers => exact .threads hmain rfl fun w => worker_of_isExited (hworkers w)
  | _ => exact .stays rfl

theorem returned_step {e : Event κ ω} (hstep : Moves s e s') (hmain : s.main = .returned) : s'.main = .returned := by
  cases main_step hstep with
  | stays hsame => exact hsame.trans hmain
  | opened hbefore => rw [hmain] at hbefore; cases hbefore
  | clients hbefore => rw [hmain] at hbefore; cases hbefore
  | tasks hbefore => rw [hmain] at hbefore; cases hbefore
  | threads hbefore => rw [hmain] at hbefore; cases hbefore

/-- Every step keeps the threads lively. -/
theorem lively_step [Fintype κ] [Fintype ω] [Nonempty ω] {e : Event κ ω} (h : Lively s)
    (hlt : s.machine.heap.nextSessionId.toNat < 2 ^ 64 - 1) (hchain : s.KeepsChain e) (hstep : Moves s e s') : Lively s' where
  base := (base_step h.base hlt hstep).1
  attended := attended_step h.attended h.base (h.noDrop hstep) hstep
  machine hmain := by
    have hbefore : s.main ≠ .returned := fun hreturned => hmain (returned_step hstep hreturned)
    obtain ⟨ht, hf, ha⟩ := h.machine hbefore
    rcases machine_step hstep with hreturned | hsame | ⟨a, hmachine, hkeeps⟩
    · exact absurd hreturned hmain
    · rw [hsame]
      exact ⟨ht, hf, ha⟩
    · have hfresh := (h.base.numbered.fresh a).1
      have ht' := Machine.tended_step ht hfresh (hkeeps hchain) hmachine
      exact ⟨ht', Machine.found_step hf ht hfresh (Machine.step_moves hmachine), Machine.awaited_step ha ht ht' hmachine⟩
  clientsShut hmain := by
    have hnot : s'.main ≠ .returned := by
      rcases hmain with hmain | hmain
      · rw [hmain]; simp
      · rw [hmain]; simp
    cases main_step hstep with
    | stays hsame =>
      rw [hsame] at hmain
      exact clientsShut_step hstep hnot (h.clientsShut hmain)
    | opened hbefore hafter => rcases hmain with hmain | hmain <;> (rw [hmain] at hafter; cases hafter)
    | clients hbefore hafter hshut => exact hshut
    | tasks hbefore => exact clientsShut_step hstep hnot (h.clientsShut (.inl hbefore))
    | threads hbefore hafter => exact absurd hafter hnot
  tasksShut hmain := by
    cases main_step hstep with
    | stays hsame =>
      have hshut := h.tasksShut (hsame.symm.trans hmain)
      rcases machine_step hstep with hreturned | hmachine | ⟨a, hmachine, _⟩
      · rw [hmain] at hreturned
        cases hreturned
      · rw [hmachine]
        exact hshut
      · exact Machine.shutdown_step (Machine.step_moves hmachine) hshut
    | opened hbefore hafter => rw [hmain] at hafter; cases hafter
    | clients hbefore hafter => rw [hmain] at hafter; cases hafter
    | tasks hbefore hafter hshut => exact hshut
    | threads hbefore hafter => rw [hmain] at hafter; cases hafter
  joined hmain w := by
    cases main_step hstep with
    | stays hsame => exact exited_event hstep (h.joined (hsame.symm.trans hmain) w)
    | opened hbefore hafter => rw [hmain] at hafter; cases hafter
    | clients hbefore hafter => rw [hmain] at hafter; cases hafter
    | tasks hbefore hafter => rw [hmain] at hafter; cases hafter
    | threads hbefore hafter hended => exact exited_event hstep (hended w)

end

section
variable [Fintype κ] [Fintype ω]

/-- The steps that the threads have before them behind the accept loop. -/
def rank (s : ServerProcess κ ω) : Nat :=
  s.main.cost + ∑ c, (s.hand c).cost + 7 * s.clients.items.length + s.machine.toil

/-- The client thread waits for what its client says, in the dialog or as the next command. -/
def Reads (s : ServerProcess κ ω) (c : κ) : Prop := ∃ p id, s.machine.client c = .reading p id

/-- Who has to move: `main` up to the joins, then the workers, then the client threads or the clients
that they read from, then `main`. -/
def Turn (s : ServerProcess κ ω) : Party κ ω → Prop
  | .thread .main => s.main = .joining → (∀ c, s.hand c = .exited) ∧ ∀ w, s.machine.worker w = .exited
  | .thread (.worker w) => s.main = .joining ∧ s.machine.worker w ≠ .exited
  | .thread (.client c) => s.main = .joining ∧ (∀ w, s.machine.worker w = .exited) ∧ s.hand c ≠ .exited ∧ ¬ s.Reads c
  | .remote c => s.main = .joining ∧ (∀ w, s.machine.worker w = .exited) ∧ s.Reads c

def Ending (i : Party κ ω) (n : Nat) (s : ServerProcess κ ω) : Prop := s.main.isClosing = true ∧ s.Turn i ∧ s.rank = n

theorem exists_turn (s : ServerProcess κ ω) : ∃ i, s.Turn i := by
  by_cases hjoining : s.main = .joining
  · by_cases hworkers : ∀ w, s.machine.worker w = .exited
    · by_cases hhands : ∀ c, s.hand c = .exited
      · exact ⟨.thread .main, fun _ => ⟨hhands, hworkers⟩⟩
      · obtain ⟨c, hc⟩ := not_forall.mp hhands
        by_cases hreads : s.Reads c
        · exact ⟨.remote c, hjoining, hworkers, hreads⟩
        · exact ⟨.thread (.client c), hjoining, hworkers, hc, hreads⟩
    · obtain ⟨w, hw⟩ := not_forall.mp hworkers
      exact ⟨.thread (.worker w), hjoining, hw⟩
  · exact ⟨.thread .main, fun h => absurd h hjoining⟩

variable [DecidableEq κ] [DecidableEq ω]

theorem enabled_act {i : Party κ ω} {a : Action κ ω} (hparty : a.party = some i) (hplain : a.plain = true)
    (hstep : s.machine.step a ≠ none) : Enabled step Event.By i s := by
  refine ⟨.act a, hparty, ?_⟩
  obtain ⟨m, hm⟩ := Option.ne_none_iff_exists'.mp hstep
  simp [step, hplain, hm]

/-- A client thread of which the workers need nothing more goes on to its end. -/
theorem Lively.client_enabled [Nonempty ω] (h : Lively s) (hjoining : s.main = .joining)
    (hworkers : ∀ w, s.machine.worker w = .exited) {c : κ} (hc : s.hand c ≠ .exited) (hreads : ¬ s.Reads c) :
    Enabled step Event.By (.thread (.client c)) s := by
  obtain ⟨ht, hf, ha⟩ := h.machine (by rw [hjoining]; simp)
  have hshut := h.clientsShut (.inr hjoining)
  cases hhand : s.hand c with
  | empty =>
    refine ⟨.take c, rfl, ?_⟩
    cases hitems : s.clients.items with
    | nil => simp [step, hhand, Fifo.call, hitems, hshut]
    | cons conn rest => simp [step, hhand, Fifo.call, hitems]
  | popped conn =>
    have hidle : s.machine.client c = .idle := by
      by_contra hbusy
      have hids : (s.machine.client c).ids ≠ none := by
        cases hphase : s.machine.client c with
        | idle => exact absurd hphase hbusy
        | _ => simp [ClientPhase.ids]
      rcases h.base.manned c hids with ⟨conn', hserving⟩ | hdropped
      · rw [hhand] at hserving
        cases hserving
      · rw [hhand] at hdropped
        cases hdropped
    exact ⟨.connect c .none, rfl, by simp [step, hhand, Machine.step, hidle]⟩
  | failed conn => exact ⟨.drop c, rfl, by simp [step, hhand]⟩
  | dropped => exact absurd hhand (h.attended.undropped c)
  | exited => exact absurd hhand hc
  | serving conn =>
    obtain ⟨id, hid, _⟩ := h.attended.serving c conn hhand
    cases hphase : s.machine.client c with
    | idle => rw [hphase] at hid; cases hid
    | unfound id' => exact absurd hphase (hf.unfound c id')
    | created id' =>
      obtain ⟨p, hp⟩ := hf.get ht hphase
      exact enabled_act (a := .get c) rfl rfl (by simp [Machine.step, hphase, hp])
    | reading p id' => exact absurd ⟨p, id', hphase⟩ hreads
    | pushing p id' =>
      exact enabled_act (a := .push c listTask) rfl rfl
        (by simp [Machine.step, hphase, Fifo.call, h.tasksShut hjoining])
    | waiting p id' =>
      exact enabled_act (a := .wake c) rfl rfl
        (by simp [Machine.step, hphase, ha.ready ht.drained hworkers hphase])
    | woken p id' =>
      refine enabled_act (a := .check c) rfl rfl ?_
      simp only [Machine.step, hphase]
      split <;> simp
    | sending p id' => exact enabled_act (a := .send c true) rfl rfl (by simp [Machine.step, hphase])
    | leaving p id' => exact enabled_act (a := .markInactive c) rfl rfl (by simp [Machine.step, hphase])
    | closing p id' =>
      exact ⟨.destroy c, rfl, by simp [step, hhand, hphase, ServerProcess.destroy, Machine.step]⟩

theorem Lively.enabled [Nonempty ω] (h : Lively s) {i : Party κ ω} {n : Nat} (hending : Ending i n s) :
    Enabled step Event.By i s := by
  obtain ⟨hclosing, hturn, _⟩ := hending
  rcases i with (_ | c | w) | c
  · cases hmain : s.main with
    | closingClients => exact ⟨.closeClients, rfl, by simp [step, hmain]⟩
    | closingTasks => exact ⟨.closeTasks, rfl, by simp [step, hmain, Machine.step]⟩
    | joining =>
      obtain ⟨hhands, hworkers⟩ := hturn hmain
      refine ⟨.managerDestroy, rfl, ?_⟩
      simp [step, hmain, hhands, hworkers, Hand.isExited, WorkerPhase.isExited]
    | _ => rw [hmain] at hclosing; cases hclosing
  · exact h.client_enabled hturn.1 hturn.2.1 hturn.2.2.1 hturn.2.2.2
  · obtain ⟨hjoining, hw⟩ := hturn
    obtain ⟨a, hworker, hstep⟩ := Machine.draining_enabled (κ := κ) (n := _) ⟨h.tasksShut hjoining, hw, rfl⟩
    refine enabled_act ?_ ?_ hstep
    · cases a <;> simp_all [Action.worker, Action.party]
    · cases a <;> simp_all [Action.worker, Action.plain]
  · obtain ⟨_, _, p, id, hphase⟩ := hturn
    exact enabled_act (a := .quit c) rfl rfl (by simp [Machine.step, hphase])

/-- The client sends no command. -/
def NoCommand (e : Event κ ω) : Prop := ∀ c, e ≠ .act (.reset c)

/-- Behind the accept loop every step of a thread leaves less to do; the signal handler changes nothing of that. -/
theorem Lively.rank_step (h : Lively s) {e : Event κ ω} (hclosing : s.main.isClosing = true) (hquiet : NoCommand e)
    (hstep : Moves s e s') : s'.main = .returned ∨ (s'.main.isClosing = true ∧ s'.rank < s.rank) ∨
      (e.party = none ∧ s'.main = s.main ∧ s'.hand = s.hand ∧ s'.machine.worker = s.machine.worker ∧
        s'.machine.client = s.machine.client ∧ s'.rank = s.rank) := by
  have opened : ∀ {main : MainPhase}, s.main = main → main.isClosing = false → False := by
    rintro _ rfl hopen
    rw [hclosing] at hopen
    cases hopen
  have held : ∀ {c : κ} {hand : Hand} {clients : Fifo Connection},
      hand.cost + 7 * clients.items.length < (s.hand c).cost + 7 * s.clients.items.length →
      s.main.cost + ∑ c', (Function.update s.hand c hand c').cost + 7 * clients.items.length + s.machine.toil < s.rank := by
    intro c hand clients hless
    have hsum := sum_update Hand.cost s.hand c hand
    rw [rank]
    omega
  cases hstep with
  | accept hmain => exact (opened hmain rfl).elim
  | pushed hmain => exact (opened hmain rfl).elim
  | refused hmain => exact (opened hmain rfl).elim
  | reject hmain => exact (opened hmain rfl).elim
  | stop hmain => exact (opened hmain rfl).elim
  | closeClients hmain =>
    refine .inr (.inl ⟨rfl, ?_⟩)
    simp only [rank, hmain, MainPhase.cost]
    omega
  | @closeTasks m hmain hmachine =>
    refine .inr (.inl ⟨rfl, ?_⟩)
    cases Machine.step_moves hmachine with
    | shutdown =>
      have htoil : (s.machine.setQueue { s.machine.queue with shutdown := true }).toil = s.machine.toil := rfl
      simp only [rank, hmain, MainPhase.cost, htoil]
      omega
  | interrupt => exact .inr (.inr ⟨rfl, rfl, rfl, rfl, rfl, rfl⟩)
  | @popped c conn clients hhand hcall =>
    have hlength := congrArg List.length (Fifo.items_of_popped hcall)
    rw [List.length_cons] at hlength
    refine .inr (.inl ⟨hclosing, @held c (.popped conn) clients ?_⟩)
    rw [hhand, Hand.cost, Hand.cost]
    omega
  | @ended c clients hhand hcall =>
    refine .inr (.inl ⟨hclosing, @held c .exited s.clients ?_⟩)
    simp [hhand, Hand.cost]
  | @dropFailed c conn hhand =>
    refine .inr (.inl ⟨hclosing, @held c .empty s.clients ?_⟩)
    simp [hhand, Hand.cost]
  | @dropUnfound c conn id hhand hclient => exact absurd hhand (h.noDrop (.dropUnfound hhand hclient) conn)
  | @connect c fault conn m hhand hmachine =>
    cases Machine.step_moves hmachine with
    | connect hidle =>
      have htoil := Machine.toil_setClient (s.machine.setHeap (s.machine.heap.create fault conn.fd).1) c
        (if (s.machine.heap.create fault conn.fd).2 = 0 then .idle else .created (s.machine.heap.create fault conn.fd).2)
      have hsum := sum_update Hand.cost s.hand c
        (if (s.machine.heap.create fault conn.fd).2 = 0 then .failed conn else .serving conn)
      change _ + (s.machine.client c).cost = s.machine.toil + _ at htoil
      refine .inr (.inl ⟨hclosing, ?_⟩)
      rw [rank, rank]
      simp only [connect]
      rw [hhand] at hsum
      rw [hidle] at htoil
      by_cases hz : (s.machine.heap.create fault conn.fd).2 = 0
      · rw [if_pos hz] at htoil hsum
        rw [if_pos hz, if_pos hz]
        change _ + 7 = _ + 2 at hsum
        change _ + 0 = _ + 0 at htoil
        omega
      · rw [if_neg hz] at htoil hsum
        rw [if_neg hz, if_neg hz]
        change _ + 7 = _ + 1 at hsum
        change _ + 0 = _ + 4 at htoil
        omega
  | @destroy c id m hhand hmachine =>
    rcases hhand with ⟨⟨conn, hhand⟩, p, hphase⟩ | ⟨hdropped, _⟩
    · cases Machine.step_moves hmachine with
      | @destroy _ id' _ =>
        have htoil := Machine.toil_setClient (s.machine.setHeap (s.machine.heap.destroy id')) c .idle
        have hsum := sum_update Hand.cost s.hand c .empty
        change _ + (s.machine.client c).cost = s.machine.toil + _ at htoil
        rw [hphase] at htoil
        rw [hhand] at hsum
        change _ + 1 = _ + 1 at hsum
        change _ + 1 = _ + 0 at htoil
        refine .inr (.inl ⟨hclosing, ?_⟩)
        rw [rank, rank]
        simp only
        omega
    · exact absurd hdropped (h.attended.undropped c)
  | @act a m hplain hmachine =>
    by_cases hshut : a = .shutdown
    · subst hshut
      cases Machine.step_moves hmachine with
      | shutdown => exact .inr (.inr ⟨rfl, rfl, rfl, rfl, rfl, rfl⟩)
    · have htoil := Machine.toil_step hplain (fun c hc => hquiet c (by rw [hc])) hshut (Machine.step_moves hmachine)
      refine .inr (.inl ⟨hclosing, ?_⟩)
      change s.main.cost + ∑ c, (s.hand c).cost + 7 * s.clients.items.length + m.toil < s.rank
      rw [rank]
      omega
  | managerDestroy hmain hhands hworkers => exact .inl rfl

theorem ending_near (h : Lively s) {e : Event κ ω} {i : Party κ ω} {n : Nat} (hquiet : NoCommand e) (hending : Ending i n s)
    (hstep : Moves s e s') : s'.main = .returned ∨ (∃ i' n', n' < n ∧ Ending i' n' s') ∨ (¬ e.By i ∧ Ending i n s') := by
  obtain ⟨hclosing, hturn, rfl⟩ := hending
  rcases h.rank_step hclosing hquiet hstep with
    hreturned | ⟨hclosing', hless⟩ | ⟨hparty, hmain, hhand, hworker, hclient, hsame⟩
  · exact .inl hreturned
  · obtain ⟨i', hturn'⟩ := s'.exists_turn
    exact .inr (.inl ⟨i', _, hless, hclosing', hturn', rfl⟩)
  · refine .inr (.inr ⟨?_, ?_, ?_, hsame⟩)
    · rw [Event.By, hparty]
      simp
    · rwa [hmain]
    · rcases i with (_ | c | w) | c
      · rw [Turn, hmain, hhand, hworker]
        exact hturn
      · rw [Turn, hmain, hhand, hworker, Reads, hclient]
        exact hturn
      · rw [Turn, hmain, hworker]
        exact hturn
      · rw [Turn, hmain, hworker, Reads, hclient]
        exact hturn

/-- Whoever a client thread reads from sends `QUIT` or hangs up in the end. -/
def HangUp (x : Execution (step (κ := κ) (ω := ω))) : Prop :=
  ∀ c k, (x.state k).Reads c → ∃ j ≥ k, x.act j = some (.act (.quit c))

/-- With clients that hang up nobody at either end of a connection is left out. -/
theorem HangUp.fair {x : Execution (step (κ := κ) (ω := ω))} (hhang : HangUp x) (hfair : x.Fair Event.Own) :
    x.Fair Event.By := by
  intro i k henabled
  cases i with
  | thread t => exact hfair t k henabled
  | remote c =>
    obtain ⟨e, hby, hstep⟩ := henabled k (Nat.le_refl k)
    have hreads : (x.state k).Reads c := by
      cases e with
      | act a =>
        have hparty : a.party = some (.remote c) := hby
        obtain ⟨s', hs'⟩ := Option.ne_none_iff_exists'.mp hstep
        cases step_moves hs' with
        | act hplain hmachine =>
          cases Machine.step_moves hmachine with
          | reset hc =>
            obtain rfl := Party.remote.inj (Option.some.inj hparty)
            exact ⟨_, _, hc⟩
          | quit hc =>
            obtain rfl := Party.remote.inj (Option.some.inj hparty)
            exact ⟨_, _, hc⟩
          | _ => cases hparty
      | _ => cases hby
    obtain ⟨j, hj, hact⟩ := hhang c k hreads
    exact ⟨j, hj, _, hact, rfl⟩

end

end ServerProcess

/-- The server is shut down while the `LIST` of a client waits for the worker. -/
def shutdownLife : List (Event (Fin 1) (Fin 1)) :=
  let c : Fin 1 := Fin.last 0
  let w : Fin 1 := Fin.last 0
  [.accept 4, .offer, .take c, .connect c .none, .act (.get c), .act (.reset c), .act (.push c listTask), .stop,
    .closeClients, .closeTasks, .act (.pop w), .act (.produce w listResponse), .act (.lookup w), .act (.set w),
    .act (.wake c), .act (.check c), .act (.send c true), .act (.count w), .act (.report w), .act (.pop w),
    .act (.quit c), .act (.markInactive c), .destroy c, .take c, .managerDestroy]

theorem shutdownLife_end : (run ServerProcess.step (ServerProcess.start 10 100) shutdownLife).map
    (fun s => (s.main, s.hand 0, s.machine.client 0, s.machine.worker 0, s.machine.heap.nextSessionId)) =
      some (.returned, .exited, .idle, .exited, 2) := by
  decide +kernel

theorem shutdownLife_isSome : (run ServerProcess.step (ServerProcess.start 10 100) shutdownLife).isSome := by
  obtain ⟨s, hs, _⟩ := Option.map_eq_some_iff.mp shutdownLife_end
  rw [hs]
  rfl

def shutdownExecution : Execution (ServerProcess.step (κ := Fin 1) (ω := Fin 1)) :=
  Execution.ofRun ServerProcess.step (ServerProcess.start 10 100) shutdownLife shutdownLife_isSome

theorem shutdownExecution_fair : shutdownExecution.Fair Event.Own := by
  obtain ⟨s, hs, hstate⟩ := Option.map_eq_some_iff.mp shutdownLife_end
  simp only [Prod.mk.injEq] at hstate
  obtain ⟨hmain, hhand, hclient, hworker, _⟩ := hstate
  refine Execution.fair_ofRun hs ?_
  rintro i ⟨e, hown, henabled⟩
  refine henabled ?_
  cases e with
  | act a =>
    cases a with
    | shutdown => cases hown
    | connect c | get c | reset c | push c | wake c | check c | send c | quit c | markInactive c | destroy c =>
      obtain rfl := Subsingleton.elim c 0
      simp [ServerProcess.step, Machine.step, hclient, Action.plain]
    | pop w | produce w | lookup w | set w | count w | report w =>
      obtain rfl := Subsingleton.elim w 0
      simp [ServerProcess.step, Machine.step, hworker]
  | accept | interrupt => cases hown
  | take c | drop c | connect c | destroy c =>
    obtain rfl := Subsingleton.elim c 0
    simp [ServerProcess.step, hhand]
  | _ => simp [ServerProcess.step, hmain]

/-- The client hangs up behind its response. -/
theorem shutdownExecution_hangUp : ServerProcess.HangUp shutdownExecution := by
  rintro c k ⟨p, id, hphase⟩
  obtain rfl := Subsingleton.elim c 0
  have hgone : ∀ k < 25, 20 < k → (shutdownExecution.state k).machine.client 0 ∈
      [ClientPhase.leaving 0 1, .closing 0 1, .idle] := by decide +kernel
  rcases Nat.lt_or_ge 20 k with hlate | hk
  · rcases Nat.lt_or_ge k 25 with hk | hk
    · have hmem := hgone k hk hlate
      rw [hphase] at hmem
      simp at hmem
    · obtain ⟨s, hs, hstate⟩ := Option.map_eq_some_iff.mp shutdownLife_end
      have hlast : shutdownExecution.state k = s := Execution.ofRun_end hs hk
      rw [hlast, (Prod.mk.inj (Prod.mk.inj (Prod.mk.inj hstate).2).2).1] at hphase
      cases hphase
  · exact ⟨20, hk, rfl⟩

theorem shutdownExecution_ids (k : Nat) : (shutdownExecution.state k).machine.heap.nextSessionId.toNat < 2 ^ 64 - 1 := by
  have hfew : ∀ k < 25, (shutdownExecution.state k).machine.heap.nextSessionId.toNat < 2 ^ 64 - 1 := by decide +kernel
  rcases Nat.lt_or_ge k 25 with hk | hk
  · exact hfew k hk
  · obtain ⟨s, hs, hstate⟩ := Option.map_eq_some_iff.mp shutdownLife_end
    have hlast : shutdownExecution.state k = s := Execution.ofRun_end hs hk
    rw [hlast, (Prod.mk.inj (Prod.mk.inj (Prod.mk.inj (Prod.mk.inj hstate).2).2).2).2]
    decide

/-- The session is alone in the table when it is destroyed. -/
theorem shutdownExecution_chain (k : Nat) (e : Event (Fin 1) (Fin 1)) (hact : shutdownExecution.act k = some e) :
    (shutdownExecution.state k).KeepsChain e := by
  have hsessions : (shutdownExecution.state 22).machine.heap.sessions = Function.update (fun _ => none) 1 (some 0) := rfl
  change shutdownLife[k]? = some e at hact
  have hk : k < 25 := (List.getElem?_eq_some_iff.mp hact).1
  cases e with
  | destroy c =>
    intro id i q hid hfind j p hj hp
    obtain ⟨hi, _⟩ := Heap.find_some hfind
    interval_cases k
    all_goals simp [shutdownLife] at hact
    rw [hsessions] at hp hi
    simp_all [Function.update_apply]
  | _ => trivial

theorem shutdownExecution_quiet (j : Nat) (hj : j ≥ 8) (e : Event (Fin 1) (Fin 1)) (hact : shutdownExecution.act j = some e) :
    ServerProcess.NoCommand e := by
  rintro c rfl
  have hmem : .act (.reset c) ∈ shutdownLife.drop 8 := by
    obtain ⟨d, rfl⟩ := Nat.exists_eq_add_of_le hj
    exact List.mem_of_getElem? (List.getElem?_drop.trans hact)
  simp [shutdownLife] at hmem

end Stash.Delivery
