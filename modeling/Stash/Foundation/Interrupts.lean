import Stash.Foundation.LockOrder

/-! Handlers that run on top of the code of a thread, at any point of it and inside one another. A
handler goes on behind its test of a flag only while the flag is not set, and sets it. -/
namespace Stash.Foundation.Interrupts
open LockOrder
variable {μ τ : Type}

/-- Where a handler is: at the test of the flag, behind it, or in its body. -/
inductive Frame (μ : Type) where
  | entered
  | passed
  | body (c : Code μ Unit)

structure State (τ μ : Type) where
  threads : LockOrder.State τ μ
  /-- The handlers of a thread that have not returned, the innermost first. -/
  frames : τ → List (Frame μ)
  called : Bool

inductive Move (τ : Type) where
  | deliver (t : τ)
  | go (t : τ) (answer : Bool × Nat)

def start (code : τ → Code μ Unit) : State τ μ := ⟨LockOrder.start code, fun _ => [], false⟩

variable [DecidableEq τ] [DecidableEq μ]

def State.setFrames (s : State τ μ) (t : τ) (frames : List (Frame μ)) : State τ μ :=
  { s with frames := Function.update s.frames t frames }

/-- What one step of a body does to the mutexes of its thread. -/
def State.act (s : State τ μ) (t : τ) (act : Act μ) : State τ μ :=
  { s with threads := { s.threads with
      held := Function.update s.threads.held t (act.after (s.threads.held t))
      owner := act.owners t s.threads.owner } }

/-- A thread goes on with its innermost handler, and with its own code when it has none. -/
def step (handler : Code μ Unit) (s : State τ μ) : Move τ → Option (State τ μ)
  | .deliver t => some (s.setFrames t (.entered :: s.frames t))
  | .go t answer =>
    match s.frames t with
    | [] => (LockOrder.step s.threads (t, answer)).map fun threads => { s with threads := threads }
    | .entered :: rest => some (s.setFrames t (if s.called then rest else .passed :: rest))
    | .passed :: rest => some { s.setFrames t (.body handler :: rest) with called := true }
    | .body c :: rest =>
      match c.next answer with
      | none => some (s.setFrames t rest)
      | some (act, c) =>
        if act.enabled s.threads.owner then some ((s.act t act).setFrames t (.body c :: rest)) else none

/-- The mutex that the innermost handler asks for. -/
def pending : List (Frame μ) → Option μ
  | .body c :: _ => c.request
  | _ => none

/-- No handler asks for a mutex that its own thread holds. -/
def NeverRelocks (s : State τ μ) : Prop :=
  ∀ t m, pending (s.frames t) = some m → m ∉ s.threads.held t

/-- The code locks nothing that is held already, and gives back what it takes. -/
abbrev Reentrant (c : Code μ Unit) (held : List μ) : Prop := GivesBack (fun h m => h ≠ m) c held

def atFlag : List (Frame μ) → Bool
  | .entered :: _ => true
  | _ => false

/-- A handler that finds the flag not set can run on top of what its thread holds. -/
def Clear (handler : Code μ Unit) (s : State τ μ) : Move τ → Prop
  | .deliver _ => True
  | .go t _ => atFlag (s.frames t) = true → s.called = false → Reentrant handler (s.threads.held t)

/-- The handlers in progress can run to their ends one after the other. -/
def Suspended (handler : Code μ Unit) : List (Frame μ) → List μ → Prop
  | [], _ => True
  | .entered :: rest, held => Suspended handler rest held
  | .passed :: rest, held => Reentrant handler held ∧ Suspended handler rest held
  | .body c :: rest, held => Orderly (fun h m => h ≠ m) c held fun _ behind => Suspended handler rest behind

variable {handler : Code μ Unit} {s s' : State τ μ}

omit [DecidableEq μ] in
@[simp] theorem free_ne {held : List μ} {m : μ} : Free (fun h m => h ≠ m) held m ↔ m ∉ held := by
  unfold Free
  exact List.forall_mem_ne'

section Steps
variable {t : τ} {answer : Bool × Nat} {frames rest : List (Frame μ)}

omit [DecidableEq μ] in
@[simp] theorem frames_setFrames : (s.setFrames t frames).frames t = frames := Function.update_self ..

omit [DecidableEq μ] in
@[simp] theorem threads_setFrames : (s.setFrames t frames).threads = s.threads := rfl

omit [DecidableEq μ] in
@[simp] theorem pending_body {c : Code μ Unit} : pending (.body c :: rest) = c.request := rfl

theorem step_entered (hframes : s.frames t = .entered :: rest) (hcalled : s.called = false) :
    step handler s (.go t answer) = some (s.setFrames t (.passed :: rest)) := by
  unfold step
  simp only [hframes, hcalled, Bool.false_eq_true, if_false]

theorem step_passed (hframes : s.frames t = .passed :: rest) :
    step handler s (.go t answer) = some { s.setFrames t (.body handler :: rest) with called := true } := by
  unfold step
  simp only [hframes]

theorem step_body {c c' : Code μ Unit} {act : Act μ} (hframes : s.frames t = .body c :: rest)
    (hn : c.next answer = some (act, c')) (henabled : act.enabled s.threads.owner = true) :
    step handler s (.go t answer) = some ((s.act t act).setFrames t (.body c' :: rest)) := by
  unfold step
  simp only [hframes, hn, henabled, if_true]

end Steps

omit [DecidableEq τ] in
theorem suspended_start (code : τ → Code μ Unit) (t : τ) :
    Suspended handler ((start code).frames t) ((start code).threads.held t) := trivial

omit [DecidableEq τ] in
theorem neverRelocks (h : ∀ t, Suspended handler (s.frames t) (s.threads.held t)) : NeverRelocks s := by
  intro t m hpending hmem
  have ht := h t
  unfold pending at hpending
  split at hpending
  · rename_i c rest hframes
    rw [hframes] at ht
    exact free_ne.mp (Orderly.request ht hpending) hmem
  · cases hpending

/-- A thread that moves leaves what the others hold and what they are in. -/
theorem suspended_update {t : τ} {frames : List (Frame μ)} {held : List μ}
    (h : ∀ t, Suspended handler (s.frames t) (s.threads.held t)) (ht : Suspended handler frames held) (u : τ) :
    Suspended handler (Function.update s.frames t frames u) (Function.update s.threads.held t held u) := by
  rcases eq_or_ne u t with rfl | hne
  · rw [Function.update_self, Function.update_self]
    exact ht
  · rw [Function.update_of_ne hne, Function.update_of_ne hne]
    exact h u

theorem suspended_setFrames {t : τ} {frames : List (Frame μ)}
    (h : ∀ t, Suspended handler (s.frames t) (s.threads.held t))
    (ht : Suspended handler frames (s.threads.held t)) (u : τ) :
    Suspended handler ((s.setFrames t frames).frames u) ((s.setFrames t frames).threads.held u) := by
  unfold State.setFrames
  have hheld := Function.update_eq_self t s.threads.held
  rw [← hheld]
  exact suspended_update h ht u

omit [DecidableEq τ] in
/-- A body at its end leaves what the handler under it needs. -/
theorem suspended_returned {c : Code μ Unit} {rest : List (Frame μ)} {held : List μ} {answer : Bool × Nat}
    (h : Suspended handler (.body c :: rest) held) (hn : c.next answer = none) :
    Suspended handler rest held := by
  obtain ⟨a, rfl⟩ := Code.next_eq_none hn
  exact h

omit [DecidableEq τ] in
theorem suspended_next {c c' : Code μ Unit} {act : Act μ} {rest : List (Frame μ)} {held : List μ}
    {answer : Bool × Nat} (h : Suspended handler (.body c :: rest) held)
    (hn : c.next answer = some (act, c')) :
    Suspended handler (.body c' :: rest) (act.after held) :=
  (Orderly.next h hn).2

theorem held_of_step {threads threads' : LockOrder.State τ μ} {t u : τ} {answer : Bool × Nat}
    (h : LockOrder.step threads (t, answer) = some threads') (hne : u ≠ t) :
    threads'.held u = threads.held u := by
  unfold LockOrder.step at h
  split at h
  · cases h
  · split at h
    · cases h
      exact Function.update_of_ne hne _ _
    · cases h

/-- A step keeps every handler in progress able to run to its end, where a handler that passes its
test is clear of what its thread holds. -/
theorem suspended_step (h : ∀ t, Suspended handler (s.frames t) (s.threads.held t)) {move : Move τ}
    (hclear : Clear handler s move) (hs : step handler s move = some s') (u : τ) :
    Suspended handler (s'.frames u) (s'.threads.held u) := by
  cases move with
  | deliver t =>
    cases hs
    have hentered : Suspended handler (.entered :: s.frames t) (s.threads.held t) := h t
    exact suspended_setFrames h hentered u
  | go t answer =>
    have hrest := h t
    unfold step at hs
    dsimp only at hs
    split at hs
    · rename_i hframes
      obtain ⟨threads, hthreads, rfl⟩ := Option.map_eq_some_iff.mp hs
      rcases eq_or_ne u t with rfl | hne
      · rw [hframes]
        trivial
      · dsimp only
        rw [held_of_step hthreads hne]
        exact h u
    · rename_i rest hframes
      rw [hframes] at hrest
      cases hs
      refine suspended_setFrames h ?_ u
      split
      · exact hrest
      · rename_i hcalled
        exact ⟨hclear (by rw [hframes]; rfl) (Bool.eq_false_of_not_eq_true hcalled), hrest⟩
    · rename_i rest hframes
      rw [hframes] at hrest
      cases hs
      refine suspended_setFrames h ?_ u
      refine Orderly.mono hrest.1 fun _ behind hbehind => ?_
      rw [hbehind]
      exact hrest.2
    · rename_i c rest hframes
      rw [hframes] at hrest
      split at hs
      · rename_i hn
        cases hs
        exact suspended_setFrames h (suspended_returned hrest hn) u
      · rename_i act c' hn
        split at hs
        · cases hs
          exact suspended_update h (suspended_next hrest hn) u
        · cases hs

/-- No handler asks for what its own thread holds, in a run whose handlers are clear at their
tests. -/
theorem always_neverRelocks {code : τ → Code μ Unit} {moves : List (Move τ)}
    (h : Runs.Along (step handler) (Clear handler) (start code) moves) :
    Runs.Always (step handler) NeverRelocks (start code) moves := by
  have hkeep : Runs.Always (step handler) (fun s => ∀ t, Suspended handler (s.frames t) (s.threads.held t))
      (start code) moves :=
    h.always (fun _ _ _ hs hclear hstep => suspended_step hs hclear hstep) (suspended_start code)
  exact hkeep.mono fun _ => neverRelocks

end Stash.Foundation.Interrupts
