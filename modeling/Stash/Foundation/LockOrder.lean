import Mathlib.Data.List.Basic
import Mathlib.Logic.Function.Basic
import Mathlib.Order.WellFounded
import Stash.Foundation.Runs

/-! Threads that take mutexes while they hold others. Code is kept as its use of mutexes; one
relation says which mutex may be asked for inside which, and what keeps to it cannot be blocked
in a circle. -/
namespace Stash.Foundation.LockOrder
variable {μ τ : Type}

/-- Code as its use of mutexes. The value of `test` or `pick` is left open: it stands for the
outcome of a test or of a call outside, or for an address. -/
inductive Code (μ : Type) : Type → Type 1 where
  | ret {α : Type} (a : α) : Code μ α
  | bind {α β : Type} (c : Code μ α) (k : α → Code μ β) : Code μ β
  | test : Code μ Bool
  | pick : Code μ Nat
  | init (m : μ) : Code μ Unit
  | lock (m : μ) : Code μ Unit
  | unlock (m : μ) : Code μ Unit
  /-- The body is run again as long as it ends with `none`. -/
  | loop {α : Type} (body : Code μ (Option α)) : Code μ α

instance : Monad (Code μ) where
  pure := Code.ret
  bind := Code.bind

/-- What one step does to a mutex. -/
inductive Act (μ : Type) where
  | silent
  | init (m : μ)
  | lock (m : μ)
  | unlock (m : μ)

namespace Code
variable {α : Type}

def value : Code μ α → Option α
  | ret a => some a
  | _ => none

/-- One step of the code: what it does to a mutex, and the code that is left. -/
def next (answer : Bool × Nat) : {α : Type} → Code μ α → Option (Act μ × Code μ α)
  | _, ret _ => none
  | _, bind c k =>
    match c.value with
    | some a => some (.silent, k a)
    | none => (next answer c).map fun r => (r.1, bind r.2 k)
  | _, test => some (.silent, ret answer.1)
  | _, pick => some (.silent, ret answer.2)
  | _, init m => some (.init m, ret ())
  | _, lock m => some (.lock m, ret ())
  | _, unlock m => some (.unlock m, ret ())
  | _, loop body =>
    some (.silent, bind body fun
      | none => loop body
      | some a => ret a)

/-- The mutex that the next step asks for. -/
def request : {α : Type} → Code μ α → Option μ
  | _, bind c _ => c.request
  | _, lock m => some m
  | _, _ => none

end Code

structure State (τ μ : Type) where
  code : τ → Code μ Unit
  /-- What the thread has locked and not unlocked, the latest first. -/
  held : τ → List μ
  owner : μ → Option τ

def start (code : τ → Code μ Unit) : State τ μ := ⟨code, fun _ => [], fun _ => none⟩

namespace Act

/-- `pthread_mutex_lock` returns when nobody owns the mutex. -/
def enabled (owner : μ → Option τ) : Act μ → Bool
  | lock m => (owner m).isNone
  | _ => true

def after [DecidableEq μ] (held : List μ) : Act μ → List μ
  | lock m => m :: held
  | unlock m => held.erase m
  | _ => held

def owners [DecidableEq μ] (t : τ) (owner : μ → Option τ) : Act μ → μ → Option τ
  | silent => owner
  | init m => Function.update owner m none
  | lock m => Function.update owner m (some t)
  | unlock m => Function.update owner m none

end Act

/-- One step of thread `t`. -/
def step [DecidableEq τ] [DecidableEq μ] (s : State τ μ) (a : τ × Bool × Nat) : Option (State τ μ) :=
  match (s.code a.1).next a.2 with
  | none => none
  | some (act, c) =>
    if act.enabled s.owner then
      some ⟨Function.update s.code a.1 c, Function.update s.held a.1 (act.after (s.held a.1)),
        act.owners a.1 s.owner⟩
    else none

/-- Thread `t` is at the lock of a mutex that thread `other` owns. -/
def Blocked (s : State τ μ) (t : τ) (m : μ) (other : τ) : Prop :=
  (s.code t).request = some m ∧ s.owner m = some other

/-- `inside h m` lets a thread that holds `h` ask for `m`. -/
def Free (inside : μ → μ → Prop) (held : List μ) (m : μ) : Prop := ∀ h ∈ held, inside h m

@[simp] theorem free_nil {inside : μ → μ → Prop} {m : μ} : Free inside [] m :=
  fun _ h => absurd h List.not_mem_nil

@[simp] theorem free_singleton {inside : μ → μ → Prop} {h m : μ} :
    Free inside [h] m ↔ inside h m := by
  unfold Free
  simp

theorem Code.value_eq {α : Type} {c : Code μ α} {a : α} (h : c.value = some a) : c = .ret a := by
  cases c <;> cases h
  rfl

theorem Code.next_eq_none {α : Type} {c : Code μ α} {answer : Bool × Nat} (h : c.next answer = none) :
    ∃ a, c = .ret a := by
  induction c with
  | ret a => exact ⟨a, rfl⟩
  | bind c k ihc ihk =>
    unfold Code.next at h
    split at h
    · cases h
    · rename_i hvalue
      obtain ⟨a, rfl⟩ := ihc (Option.map_eq_none_iff.mp h)
      cases hvalue
  | _ => cases h

theorem Code.next_request {α : Type} {c : Code μ α} {m : μ} (h : c.request = some m)
    (answer : Bool × Nat) : ∃ rest, c.next answer = some (.lock m, rest) := by
  induction c with
  | bind c k ihc ihk =>
    obtain ⟨rest, hrest⟩ := ihc h
    have hvalue : c.value = none := by
      cases c with
      | ret a => cases h
      | _ => rfl
    exact ⟨.bind rest k, by unfold Code.next; rw [hvalue, hrest]; rfl⟩
  | lock m' => cases h; exact ⟨.ret (), rfl⟩
  | _ => cases h

section Rules
variable [DecidableEq μ]

/-- Weakest precondition of the code for what is held behind it: every lock on the way is
allowed inside what is held, every unlock is of something held, a loop body gives back what
it took. -/
def Orderly (inside : μ → μ → Prop) : {α : Type} → Code μ α → List μ → (α → List μ → Prop) → Prop
  | _, .ret a, held, Q => Q a held
  | _, .bind c k, held, Q => Orderly inside c held fun a behind => Orderly inside (k a) behind Q
  | _, .test, held, Q => ∀ b, Q b held
  | _, .pick, held, Q => ∀ n, Q n held
  | _, .init _, held, Q => Q () held
  | _, .lock m, held, Q => Free inside held m ∧ Q () (m :: held)
  | _, .unlock m, held, Q => m ∈ held ∧ Q () (held.erase m)
  | _, .loop body, held, Q => Orderly inside body held fun
      | none => fun behind => behind = held
      | some a => fun behind => Q a behind

/-- The code gives back exactly what it takes. -/
def GivesBack (inside : μ → μ → Prop) {α : Type} (c : Code μ α) (held : List μ) : Prop :=
  Orderly inside c held fun _ behind => behind = held

variable {inside : μ → μ → Prop} {α β : Type} {held : List μ} {m : μ}

theorem Orderly.mono {c : Code μ α} {Q R : α → List μ → Prop} (h : Orderly inside c held Q)
    (imp : ∀ a behind, Q a behind → R a behind) : Orderly inside c held R := by
  induction c generalizing held with
  | ret a => exact imp a held h
  | bind c k ihc ihk => exact ihc h fun a behind hk => ihk a hk imp
  | test => exact fun b => imp b held (h b)
  | pick => exact fun n => imp n held (h n)
  | init m => exact imp () held h
  | lock m => exact ⟨h.1, imp () _ h.2⟩
  | unlock m => exact ⟨h.1, imp () _ h.2⟩
  | loop body ih =>
    refine ih h fun r behind hr => ?_
    cases r with
    | none => exact hr
    | some a => exact imp a behind hr

@[simp] theorem orderly_pure {a : α} {Q : α → List μ → Prop} :
    Orderly inside (pure a) held Q ↔ Q a held := Iff.rfl

@[simp] theorem orderly_bind {c : Code μ α} {k : α → Code μ β} {Q : β → List μ → Prop} :
    Orderly inside (c >>= k) held Q ↔
      Orderly inside c held fun a behind => Orderly inside (k a) behind Q := Iff.rfl

@[simp] theorem orderly_test {Q : Bool → List μ → Prop} :
    Orderly inside .test held Q ↔ Q true held ∧ Q false held :=
  ⟨fun h => ⟨h true, h false⟩, fun h b => by cases b; exacts [h.2, h.1]⟩

@[simp] theorem orderly_pick {Q : Nat → List μ → Prop} :
    Orderly inside .pick held Q ↔ ∀ n, Q n held := Iff.rfl

@[simp] theorem orderly_init {Q : Unit → List μ → Prop} :
    Orderly inside (.init m) held Q ↔ Q () held := Iff.rfl

@[simp] theorem orderly_lock {Q : Unit → List μ → Prop} :
    Orderly inside (.lock m) held Q ↔ Free inside held m ∧ Q () (m :: held) := Iff.rfl

/-- The mutex locked last is the one unlocked. -/
@[simp] theorem orderly_unlock_head {Q : Unit → List μ → Prop} :
    Orderly inside (.unlock m) (m :: held) Q ↔ Q () held := by
  unfold Orderly
  simp

/-- Code that gives back what it takes is passed over. -/
theorem GivesBack.orderly {c : Code μ α} {Q : α → List μ → Prop} (hc : GivesBack inside c held)
    (hq : ∀ a, Q a held) : Orderly inside c held Q := by
  refine Orderly.mono hc fun a behind h => ?_
  rw [h]
  exact hq a

theorem GivesBack.loop {body : Code μ (Option α)} (h : GivesBack inside body held) :
    GivesBack inside (.loop body) held := by
  unfold GivesBack Orderly
  refine Orderly.mono h fun r behind hr => ?_
  cases r with
  | none => exact hr
  | some a => exact hr

def Act.Allowed (inside : μ → μ → Prop) (held : List μ) : Act μ → Prop
  | .lock m => Free inside held m
  | .unlock m => m ∈ held
  | _ => True

/-- One step of orderly code is allowed, and what is left is orderly. -/
theorem Orderly.next {c : Code μ α} {Q : α → List μ → Prop} (h : Orderly inside c held Q)
    {answer : Bool × Nat} {act : Act μ} {rest : Code μ α} (hn : c.next answer = some (act, rest)) :
    act.Allowed inside held ∧ Orderly inside rest (act.after held) Q := by
  induction c with
  | ret a => cases hn
  | bind c k ihc ihk =>
    unfold Code.next at hn
    split at hn
    · rename_i a hvalue
      cases hn
      rw [Code.value_eq hvalue] at h
      exact ⟨trivial, h⟩
    · obtain ⟨⟨act', rest'⟩, hc, heq⟩ := Option.map_eq_some_iff.mp hn
      cases heq
      exact ihc h hc
  | test => cases hn; exact ⟨trivial, h _⟩
  | pick => cases hn; exact ⟨trivial, h _⟩
  | init m => cases hn; exact ⟨trivial, h⟩
  | lock m => cases hn; exact h
  | unlock m => cases hn; exact h
  | loop body ih =>
    cases hn
    refine ⟨trivial, ?_⟩
    change Orderly inside body held _
    refine Orderly.mono h fun r behind hr => ?_
    cases r with
    | none =>
      obtain rfl : behind = held := hr
      exact h
    | some a => exact hr

/-- A mutex that orderly code asks for is allowed inside all that is held. -/
theorem Orderly.request {c : Code μ α} {Q : α → List μ → Prop} (h : Orderly inside c held Q)
    (hm : c.request = some m) : Free inside held m := by
  obtain ⟨rest, hn⟩ := Code.next_request hm (true, 0)
  exact (h.next hn).1

/-- A mutex that a thread owns behind a step is one that it holds behind it. -/
theorem Act.owned [DecidableEq τ] {owner : μ → Option τ} {held : τ → List μ}
    (h : ∀ m t, owner m = some t → m ∈ held t) (t : τ) (act : Act μ) (m : μ) (u : τ)
    (howner : act.owners t owner m = some u) : m ∈ Function.update held t (act.after (held t)) u := by
  cases act with
  | silent =>
    change m ∈ Function.update held t (held t) u
    rw [Function.update_eq_self]
    exact h m u howner
  | init m' =>
    change m ∈ Function.update held t (held t) u
    rw [Function.update_eq_self]
    change Function.update owner m' none m = some u at howner
    rcases eq_or_ne m m' with rfl | hne
    · rw [Function.update_self] at howner
      cases howner
    · rw [Function.update_of_ne hne] at howner
      exact h m u howner
  | lock m' =>
    change Function.update owner m' (some t) m = some u at howner
    change m ∈ Function.update held t (m' :: held t) u
    rcases eq_or_ne m m' with rfl | hne
    · rw [Function.update_self] at howner
      cases howner
      rw [Function.update_self]
      exact List.mem_cons_self
    · rw [Function.update_of_ne hne] at howner
      rcases eq_or_ne u t with rfl | hother
      · rw [Function.update_self]
        exact List.mem_cons_of_mem m' (h m u howner)
      · rw [Function.update_of_ne hother]
        exact h m u howner
  | unlock m' =>
    change Function.update owner m' none m = some u at howner
    change m ∈ Function.update held t ((held t).erase m') u
    rcases eq_or_ne m m' with rfl | hne
    · rw [Function.update_self] at howner
      cases howner
    · rw [Function.update_of_ne hne] at howner
      rcases eq_or_ne u t with rfl | hother
      · rw [Function.update_self]
        exact (List.mem_erase_of_ne hne).mpr (h m u howner)
      · rw [Function.update_of_ne hother]
        exact h m u howner

theorem Act.nested {act : Act μ} (h : held.Pairwise fun m h => inside h m)
    (hallowed : act.Allowed inside held) : (act.after held).Pairwise fun m h => inside h m := by
  cases act with
  | lock m => exact List.pairwise_cons.mpr ⟨hallowed, h⟩
  | unlock m => exact h.sublist List.erase_sublist
  | _ => exact h

/-- Every thread has orderly code left, which ends with nothing held; what a thread owns it
holds, and what it holds was taken in order. -/
structure Disciplined (inside : μ → μ → Prop) (s : State τ μ) : Prop where
  orderly : ∀ t, Orderly inside (s.code t) (s.held t) fun _ behind => behind = []
  owned : ∀ m t, s.owner m = some t → m ∈ s.held t
  nested : ∀ t, (s.held t).Pairwise fun m h => inside h m

theorem disciplined_start {code : τ → Code μ Unit} (h : ∀ t, GivesBack inside (code t) []) :
    Disciplined inside (start code) :=
  ⟨h, fun _ _ howner => absurd howner (Option.some_ne_none _ ∘ Eq.symm), fun _ => List.Pairwise.nil⟩

variable {s s' : State τ μ}

theorem Disciplined.step [DecidableEq τ] (h : Disciplined inside s) {a : τ × Bool × Nat}
    (hs : step s a = some s') : Disciplined inside s' := by
  unfold LockOrder.step at hs
  split at hs
  · cases hs
  rename_i act c hn
  split at hs
  · cases hs
    obtain ⟨hallowed, hc⟩ := (h.orderly a.1).next hn
    refine ⟨fun t => ?_, Act.owned h.owned a.1 act, fun t => ?_⟩
    · dsimp only
      rcases eq_or_ne t a.1 with rfl | hne
      · rw [Function.update_self, Function.update_self]
        exact hc
      · rw [Function.update_of_ne hne, Function.update_of_ne hne]
        exact h.orderly t
    · dsimp only
      rcases eq_or_ne t a.1 with rfl | hne
      · rw [Function.update_self]
        exact Act.nested (h.nested a.1) hallowed
      · rw [Function.update_of_ne hne]
        exact h.nested t
  · cases hs

/-- Threads whose code gives back what it takes stay disciplined, in every interleaving. -/
theorem always_disciplined [DecidableEq τ] {code : τ → Code μ Unit}
    (h : ∀ t, GivesBack inside (code t) []) (acts : List (τ × Bool × Nat)) :
    Runs.Always step (Disciplined inside) (start code) acts :=
  Runs.always_of_step (fun _ _ _ hs ht => hs.step ht) acts (disciplined_start h)

/-- With no endless chain of mutexes one inside the other, no set of threads is blocked on
itself: the owner of the innermost mutex that they wait for would wait for one inside it. -/
theorem Disciplined.no_blocked_set (h : Disciplined inside s)
    (wf : WellFounded fun m h => inside h m) {members : Set τ} (hne : members.Nonempty) :
    ¬ ∀ t ∈ members, ∃ m, ∃ other ∈ members, Blocked s t m other := by
  intro hall
  let awaited : Set μ := {m | ∃ other ∈ members, s.owner m = some other}
  have hawaited : awaited.Nonempty := by
    obtain ⟨t, ht⟩ := hne
    obtain ⟨m, other, hother, -, howner⟩ := hall t ht
    exact ⟨m, other, hother, howner⟩
  obtain ⟨m, ⟨other, hother, howner⟩, hmin⟩ := wf.has_min awaited hawaited
  obtain ⟨m', third, hthird, hrequest, howner'⟩ := hall other hother
  have hinside : inside m m' := (h.orderly other).request hrequest m (h.owned m other howner)
  exact hmin m' ⟨third, hthird, howner'⟩ hinside

end Rules

end Stash.Foundation.LockOrder
