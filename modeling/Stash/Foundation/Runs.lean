import Mathlib.Data.Option.Basic

/-! Finite runs of a partial step function. A run stops at the first action that its
state does not enable, so a fact about every reached state is about the enabled prefix. -/
namespace Stash.Foundation.Runs
variable {σ α : Type*}

/-- Execute the actions in order; `none` when one of them is not enabled. -/
def run (step : σ → α → Option σ) : σ → List α → Option σ
  | s, [] => some s
  | s, a :: rest => (step s a).bind (fun t => run step t rest)

/-- `Q` holds of every state that the run reaches, the first one included. -/
def Always (step : σ → α → Option σ) (Q : σ → Prop) : σ → List α → Prop
  | s, [] => Q s
  | s, a :: rest => Q s ∧ ∀ t, step s a = some t → Always step Q t rest

/-- `P` holds of the state and the action of every step that the run takes. -/
def Along (step : σ → α → Option σ) (P : σ → α → Prop) : σ → List α → Prop
  | _, [] => True
  | s, a :: rest => ∀ t, step s a = some t → P s a ∧ Along step P t rest

variable {step : σ → α → Option σ} {Q Inv : σ → Prop} {P : σ → α → Prop}

instance Along.decidable [∀ s a, Decidable (P s a)] :
    (s : σ) → (acts : List α) → Decidable (Along step P s acts)
  | _, [] => .isTrue trivial
  | s, a :: rest =>
    match h : step s a with
    | none => .isTrue fun t ht => by rw [h] at ht; cases ht
    | some u =>
      have := Along.decidable u rest
      decidable_of_iff (P s a ∧ Along step P u rest)
        ⟨fun hu t ht => by rw [h] at ht; cases ht; exact hu, fun hall => hall u h⟩

theorem run_append (s : σ) (as bs : List α) :
    run step s (as ++ bs) = (run step s as).bind (fun t => run step t bs) := by
  induction as generalizing s with
  | nil => rfl
  | cons a as ih =>
    simp only [List.cons_append, run]
    cases step s a with
    | none => rfl
    | some t => exact ih t

/-- What every step grows a run grows. -/
theorem run_mono {R : σ → σ → Prop} (refl : ∀ s, R s s) (trans : ∀ {s t u}, R s t → R t u → R s u)
    (grow : ∀ s a t, step s a = some t → R s t) {s t : σ} {acts : List α} (h : run step s acts = some t) : R s t := by
  induction acts generalizing s with
  | nil => exact Option.some.inj h ▸ refl s
  | cons a rest ih =>
    obtain ⟨u, hu, hrest⟩ := Option.bind_eq_some_iff.mp h
    exact trans (grow s a u hu) (ih hrest)

theorem Always.head {s : σ} {acts : List α} (h : Always step Q s acts) : Q s := by
  cases acts with
  | nil => exact h
  | cons a rest => exact h.1

/-- A whole run ends in a state of which the property still holds. -/
theorem Always.last {s t : σ} {acts : List α} (h : Always step Q s acts)
    (hr : run step s acts = some t) : Q t := by
  induction acts generalizing s with
  | nil =>
    obtain rfl : s = t := Option.some.inj hr
    exact h
  | cons a rest ih =>
    obtain ⟨u, hu, hrest⟩ := Option.bind_eq_some_iff.mp hr
    exact ih (h.2 u hu) hrest

/-- Invariant rule: a step that meets `P` keeps `Inv`, so `Inv` holds throughout a run
whose steps all meet `P`. -/
theorem Along.always
    (keep : ∀ s a t, Inv s → P s a → step s a = some t → Inv t)
    {s : σ} {acts : List α} (hs : Inv s) (h : Along step P s acts) : Always step Inv s acts := by
  induction acts generalizing s with
  | nil => exact hs
  | cons a rest ih =>
    refine ⟨hs, fun t ht => ?_⟩
    obtain ⟨hp, hrest⟩ := h t ht
    exact ih (keep s a t hs hp ht) hrest

theorem Always.mono (imp : ∀ s, Inv s → Q s) {s : σ} {acts : List α}
    (h : Always step Inv s acts) : Always step Q s acts := by
  induction acts generalizing s with
  | nil => exact imp s h
  | cons a rest ih => exact ⟨imp s h.1, fun t ht => ih (h.2 t ht)⟩

theorem Along.mono {R : σ → α → Prop} (imp : ∀ s a, P s a → R s a) {s : σ} {acts : List α}
    (h : Along step P s acts) : Along step R s acts := by
  induction acts generalizing s with
  | nil => trivial
  | cons a rest ih => exact fun t ht => ⟨imp s a (h t ht).1, ih (h t ht).2⟩

theorem along_of_forall (h : ∀ s a, P s a) (s : σ) (acts : List α) : Along step P s acts := by
  induction acts generalizing s with
  | nil => trivial
  | cons a rest ih => exact fun t _ => ⟨h s a, ih t⟩

/-- What holds of every action in the state that the actions before it lead to. -/
theorem along_of_take {s : σ} {acts : List α}
    (h : ∀ k a t, acts[k]? = some a → run step s (acts.take k) = some t → P t a) : Along step P s acts := by
  induction acts generalizing s with
  | nil => trivial
  | cons a rest ih =>
    intro t ht
    refine ⟨h 0 a s rfl rfl, ih fun k b u hb hu => h (k + 1) b u hb ?_⟩
    rw [List.take_succ_cons, run, ht]
    exact hu

/-- A run that is shorter than what is left of a budget, of which a step takes one at most. -/
theorem along_of_budget (Inv : σ → Prop) (cost : σ → Nat) (budget : Nat)
    (keep : ∀ s a t, Inv s → cost s < budget → step s a = some t → Inv t ∧ cost t ≤ cost s + 1)
    (give : ∀ s a, Inv s → cost s < budget → P s a) {s : σ} {acts : List α} (hs : Inv s)
    (hlength : cost s + acts.length ≤ budget) : Along step P s acts := by
  induction acts generalizing s with
  | nil => trivial
  | cons a rest ih =>
    intro t ht
    rw [List.length_cons] at hlength
    obtain ⟨hinv, hcost⟩ := keep s a t hs (by omega) ht
    exact ⟨give s a hs (by omega), ih hinv (by omega)⟩

/-- What a state forces of its steps holds along a run through such states. -/
theorem Always.along (force : ∀ s a t, Inv s → step s a = some t → P s a) {s : σ} {acts : List α}
    (h : Always step Inv s acts) : Along step P s acts := by
  induction acts generalizing s with
  | nil => trivial
  | cons a rest ih => exact fun t ht => ⟨force s a t h.1 ht, ih (h.2 t ht)⟩

theorem Along.and {R : σ → α → Prop} {s : σ} {acts : List α} (hp : Along step P s acts)
    (hr : Along step R s acts) : Along step (fun s a => P s a ∧ R s a) s acts := by
  induction acts generalizing s with
  | nil => trivial
  | cons a rest ih => exact fun t ht => ⟨⟨(hp t ht).1, (hr t ht).1⟩, ih (hp t ht).2 (hr t ht).2⟩

/-- Unconditional invariants are the case of a vacuous step condition. -/
theorem always_of_step (keep : ∀ s a t, Inv s → step s a = some t → Inv t)
    {s : σ} (acts : List α) (hs : Inv s) : Always step Inv s acts :=
  Along.always (P := fun _ _ => True) (fun s a t h _ => keep s a t h) hs
    (along_of_forall (fun _ _ => trivial) s acts)

/-- Exactness rule: where the condition is also forced by the property of the state that
the step reaches, the runs that keep the property are the runs whose steps meet `P`, among
those whose steps all meet `R`. -/
theorem always_iff_along_given {R : σ → α → Prop}
    (keep : ∀ s a t, Inv s → R s a → P s a → step s a = some t → Inv t)
    (imp : ∀ s, Inv s → Q s)
    (force : ∀ s a t, Inv s → step s a = some t → Q t → P s a)
    {s : σ} {acts : List α} (hs : Inv s) (hr : Along step R s acts) :
    Always step Q s acts ↔ Along step P s acts := by
  constructor
  · intro h
    induction acts generalizing s with
    | nil => trivial
    | cons a rest ih =>
      intro t ht
      obtain ⟨hra, hrest⟩ := hr t ht
      have hp := force s a t hs ht (h.2 t ht).head
      exact ⟨hp, ih (keep s a t hs hra hp ht) hrest (h.2 t ht)⟩
  · intro h
    have hkeep : ∀ s a t, Inv s → R s a ∧ P s a → step s a = some t → Inv t :=
      fun s a t hs hrp => keep s a t hs hrp.1 hrp.2
    exact (Along.always hkeep hs (hr.and h)).mono imp

theorem always_iff_along (keep : ∀ s a t, Inv s → P s a → step s a = some t → Inv t)
    (imp : ∀ s, Inv s → Q s)
    (force : ∀ s a t, Inv s → step s a = some t → Q t → P s a)
    {s : σ} {acts : List α} (hs : Inv s) : Always step Q s acts ↔ Along step P s acts :=
  always_iff_along_given (R := fun _ _ => True) (fun s a t h _ => keep s a t h) imp force hs
    (along_of_forall (fun _ _ => trivial) s acts)

end Stash.Foundation.Runs
