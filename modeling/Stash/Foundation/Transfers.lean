import Mathlib.Data.List.Infix

/-! A transfer that takes several calls. Each call may move a part, may have to be made again, or
may end the transfer; what the calls come to is a list of results in any order. -/
namespace Stash.Foundation.Transfers
variable {ρ σ : Type*}

/-- What the result of one call means to the loop. -/
inductive Verdict where
  | again
  | stop
  | moved (n : Nat)
  deriving DecidableEq, Repr

/-- `advance` moves `n` units on, where a call may have moved so many. -/
structure Transfer (ρ σ : Type*) where
  verdict : ρ → Verdict
  unfinished : σ → Bool
  advance : σ → Nat → Option σ

/-- The state when the loop returns, with the results that it has not come to. It has not returned
when the results end before it does, or when one of them is none that its call can have. -/
def Transfer.loop (tr : Transfer ρ σ) : List ρ → σ → Option (σ × List ρ)
  | [], t => if tr.unfinished t then none else some (t, [])
  | result :: rest, t =>
    if tr.unfinished t then
      match tr.verdict result with
      | .again => tr.loop rest t
      | .stop => some (t, rest)
      | .moved n => (tr.advance t n).bind fun t => tr.loop rest t
    else some (t, result :: rest)

namespace Transfer
variable {tr : Transfer ρ σ}

/-- How the loop ends: the transfer is finished, or the last result has ended it. -/
inductive Ended (tr : Transfer ρ σ) (Inv : List ρ → σ → Prop) (rest : List ρ) (t : σ) : Prop where
  | finished (done : tr.unfinished t = false) (inv : Inv rest t)
  | stopped (last : ρ) (stops : tr.verdict last = .stop) (short : tr.unfinished t = true)
    (inv : Inv (last :: rest) t)

variable {Inv : List ρ → σ → Prop} {results rest : List ρ} {t t' : σ}

/-- Loop rule: what every call keeps that is made again or moves a part holds when the loop ends. -/
theorem loop_rule
    (again : ∀ result rest t, Inv (result :: rest) t → tr.verdict result = .again → Inv rest t)
    (moved : ∀ result rest t n t', Inv (result :: rest) t → tr.verdict result = .moved n →
      tr.advance t n = some t' → Inv rest t')
    (h : Inv results t) (hrun : tr.loop results t = some (t', rest)) : Ended tr Inv rest t' := by
  induction results generalizing t with
  | nil =>
    unfold loop at hrun
    split at hrun
    · cases hrun
    · rename_i hdone
      cases hrun
      exact .finished (Bool.eq_false_iff.mpr hdone) h
  | cons result results ih =>
    unfold loop at hrun
    split at hrun
    · rename_i hopen
      split at hrun
      · rename_i hverdict
        exact ih (again result results t h hverdict) hrun
      · rename_i hverdict
        cases hrun
        exact .stopped result hverdict hopen h
      · rename_i n hverdict
        obtain ⟨u, hu, hrun⟩ := Option.bind_eq_some_iff.mp hrun
        exact ih (moved result results t n u h hverdict hu) hrun
    · rename_i hdone
      cases hrun
      exact .finished (Bool.eq_false_iff.mpr hdone) h

/-- The rule for what holds of the state alone: if the transfer is not finished, a result of the
list has ended it. -/
theorem loop_invariant {Inv : σ → Prop} (keep : ∀ t n t', Inv t → tr.advance t n = some t' → Inv t')
    (h : Inv t) (hrun : tr.loop results t = some (t', rest)) :
    Inv t' ∧ (tr.unfinished t' = false ∨ ∃ last, last :: rest <:+ results ∧ tr.verdict last = .stop) := by
  have hends : Ended tr (fun left t => Inv t ∧ left <:+ results) rest t' := by
    refine loop_rule ?_ ?_ ⟨h, List.suffix_refl results⟩ hrun
    · rintro result left t ⟨hinv, hleft⟩ -
      exact ⟨hinv, (List.suffix_cons result left).trans hleft⟩
    · rintro result left t n t' ⟨hinv, hleft⟩ - hadvance
      exact ⟨keep t n t' hinv hadvance, (List.suffix_cons result left).trans hleft⟩
  cases hends with
  | finished hdone hinv => exact ⟨hinv.1, .inl hdone⟩
  | stopped last hstop _ hinv => exact ⟨hinv.1, .inr ⟨last, hinv.2, hstop⟩⟩

end Transfer

end Stash.Foundation.Transfers
