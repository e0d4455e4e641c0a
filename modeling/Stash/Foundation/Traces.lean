import Mathlib.Data.List.Basic

/-! Requests that are served one at a time, against a specification that says which answer and
which state a request may lead to. -/
namespace Stash.Foundation.Traces
variable {σ τ ο ρ : Type*}

/-- The requests in their order, each with its answer. -/
def serveAll (serve : σ → ο → σ × ρ) : σ → List ο → σ × List (ο × ρ)
  | s, [] => (s, [])
  | s, o :: rest =>
    let later := serveAll serve (serve s o).1 rest
    (later.1, (o, (serve s o).2) :: later.2)

/-- The answers lead from one state of the specification to the other. -/
inductive Meets (spec : τ → ο → ρ → τ → Prop) : τ → List (ο × ρ) → τ → Prop
  | nil (t : τ) : Meets spec t [] t
  | cons {t u v : τ} {o : ο} {r : ρ} {rest : List (ο × ρ)} (first : spec t o r u) (later : Meets spec u rest v) :
    Meets spec t ((o, r) :: rest) v

variable {serve : σ → ο → σ × ρ} {spec : τ → ο → ρ → τ → Prop} {t v : τ}

/-- Every request that is allowed keeps the invariant, and its answer meets the specification. -/
structure Refines (serve : σ → ο → σ × ρ) (spec : τ → ο → ρ → τ → Prop) (Inv : σ → Prop) (Allowed : ο → Prop)
    (view : σ → τ) : Prop where
  keep : ∀ s o, Inv s → Allowed o → Inv (serve s o).1
  meets : ∀ s o, Inv s → Allowed o → spec (view s) o (serve s o).2 (view (serve s o).1)

theorem Refines.serveAll {Inv : σ → Prop} {Allowed : ο → Prop} {view : σ → τ} (h : Refines serve spec Inv Allowed view)
    {s : σ} (hs : Inv s) {requests : List ο} (hallowed : ∀ o ∈ requests, Allowed o) :
    Inv (serveAll serve s requests).1 ∧
      Meets spec (view s) (serveAll serve s requests).2 (view (serveAll serve s requests).1) := by
  induction requests generalizing s with
  | nil => exact ⟨hs, .nil _⟩
  | cons o rest ih =>
    have ho := hallowed o (List.mem_cons_self ..)
    obtain ⟨hinv, hmeets⟩ := ih (h.keep s o hs ho) fun o' ho' => hallowed o' (List.mem_cons_of_mem o ho')
    exact ⟨hinv, .cons (h.meets s o hs ho) hmeets⟩

theorem serveAll_append (s : σ) (front back : List ο) :
    Traces.serveAll serve s (front ++ back) = ((Traces.serveAll serve (Traces.serveAll serve s front).1 back).1,
      (Traces.serveAll serve s front).2 ++ (Traces.serveAll serve (Traces.serveAll serve s front).1 back).2) := by
  induction front generalizing s with
  | nil => rfl
  | cons o front ih =>
    simp only [List.cons_append, Traces.serveAll, ih]

theorem mem_serveAll {s : σ} {requests : List ο} {e : ο × ρ} (h : e ∈ (Traces.serveAll serve s requests).2) :
    e.1 ∈ requests := by
  induction requests generalizing s with
  | nil => cases h
  | cons o rest ih =>
    rcases List.mem_cons.mp h with rfl | hrest
    · exact List.mem_cons_self ..
    · exact List.mem_cons_of_mem _ (ih hrest)

theorem meets_append {front back : List (ο × ρ)} :
    Meets spec t (front ++ back) v ↔ ∃ u, Meets spec t front u ∧ Meets spec u back v := by
  induction front generalizing t with
  | nil =>
    constructor
    · exact fun h => ⟨t, .nil t, h⟩
    · rintro ⟨u, ⟨⟩, h⟩
      exact h
  | cons e front ih =>
    obtain ⟨o, r⟩ := e
    constructor
    · rintro (_ | ⟨first, later⟩)
      obtain ⟨u, hfront, hback⟩ := ih.mp later
      exact ⟨u, .cons first hfront, hback⟩
    · rintro ⟨u, _ | ⟨first, later⟩, hback⟩
      exact .cons first (ih.mpr ⟨u, later, hback⟩)

/-- What none of the answers takes away holds in the end. -/
theorem Meets.preserves {P : τ → Prop} {trace : List (ο × ρ)} (h : Meets spec t trace v)
    (keep : ∀ o r u u', (o, r) ∈ trace → spec u o r u' → P u → P u') (ht : P t) : P v := by
  induction h with
  | nil t => exact ht
  | cons first later ih =>
    refine ih (fun o r u u' hmem => keep o r u u' (List.mem_cons_of_mem _ hmem)) ?_
    exact keep _ _ _ _ (List.mem_cons_self ..) first ht

end Stash.Foundation.Traces
