import Mathlib.Data.List.Basic
import Stash.Foundation.Runs

/-! Things that are taken, used and given up. A trace can be run when nothing is taken that is
held and nothing is used or given up that is not. -/
namespace Stash.Foundation.Ledgers
open Runs

inductive Act (ι : Type*) where
  | take (i : ι)
  | use (i : ι)
  | give (i : ι)
  deriving DecidableEq

variable {ι : Type*} [DecidableEq ι]

def step (held : List ι) : Act ι → Option (List ι)
  | .take i => if i ∈ held then none else some (i :: held)
  | .use i => if i ∈ held then some held else none
  | .give i => if i ∈ held then some (held.erase i) else none

variable {held held' : List ι} {acts : List (Act ι)}

/-- What is held and what is given up adds up to what was held and what is taken. -/
theorem step_balance {a : Act ι} (h : step held a = some held') (i : ι) :
    held'.count i + [a].count (.give i) = held.count i + [a].count (.take i) := by
  cases a with
  | take j =>
    obtain ⟨_, h⟩ := Option.ite_none_left_eq_some.mp h
    rw [← Option.some.inj h]
    simp [List.count_cons]
  | use j =>
    obtain ⟨_, h⟩ := Option.ite_none_right_eq_some.mp h
    rw [Option.some.inj h]
    simp
  | give j =>
    obtain ⟨hmem, h⟩ := Option.ite_none_right_eq_some.mp h
    rw [← Option.some.inj h, List.count_erase]
    by_cases hj : j = i
    · subst hj
      have hpos := List.count_pos_iff.mpr hmem
      simp
      omega
    · simp [hj]

theorem run_balance (h : run step held acts = some held') (i : ι) :
    held'.count i + acts.count (.give i) = held.count i + acts.count (.take i) := by
  induction acts generalizing held with
  | nil =>
    obtain rfl : held = held' := Option.some.inj h
    rfl
  | cons a acts ih =>
    obtain ⟨mid, hstep, hrest⟩ := Option.bind_eq_some_iff.mp h
    have hfirst := step_balance hstep i
    have hlast := ih hrest
    rw [← List.singleton_append, List.count_append, List.count_append]
    omega

/-- From nothing to nothing, everything that is taken is given up as often. -/
theorem given_eq_taken (h : run step [] acts = some []) (i : ι) :
    acts.count (.give i) = acts.count (.take i) := by
  simpa using run_balance h i

/-- Traces from nothing to nothing run one after the other. -/
theorem run_flatten {traces : List (List (Act ι))} (h : ∀ acts ∈ traces, run step [] acts = some []) :
    run step [] traces.flatten = some [] := by
  induction traces with
  | nil => rfl
  | cons acts traces ih =>
    rw [List.flatten_cons, run_append, h acts (List.mem_cons_self ..), Option.bind_some]
    exact ih fun other hother => h other (List.mem_cons_of_mem _ hother)

end Stash.Foundation.Ledgers
