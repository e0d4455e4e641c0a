import Stash.Foundation.Runs

/-! Infinite runs of a partial step function in which nothing may happen at a moment, and the rule
for what comes about in them when no process that can move is left out for ever. -/
namespace Stash.Foundation.FairRuns
open Runs
variable {σ α π : Type*}

/-- At every moment the state, and the action that is taken then. -/
structure Execution (step : σ → α → Option σ) where
  state : Nat → σ
  act : Nat → Option α
  moves : ∀ k a, act k = some a → step (state k) a = some (state (k + 1))
  rests : ∀ k, act k = none → state (k + 1) = state k

/-- Process `i` has a step to take. -/
def Enabled (step : σ → α → Option σ) (own : π → α → Prop) (i : π) (s : σ) : Prop := ∃ a, own i a ∧ step s a ≠ none

variable {step : σ → α → Option σ} {own : π → α → Prop}

/-- A process that has a step to take from some moment on takes one. -/
def Execution.Fair (x : Execution step) (own : π → α → Prop) : Prop :=
  ∀ i k, (∀ j ≥ k, Enabled step own i (x.state j)) → ∃ j ≥ k, ∃ a, x.act j = some a ∧ own i a

variable {x : Execution step} {Inv Goal : σ → Prop} {P : σ → α → Prop}

theorem Execution.always (keep : ∀ s a t, Inv s → P s a → step s a = some t → Inv t)
    (hmeets : ∀ k a, x.act k = some a → P (x.state k) a) (hstart : Inv (x.state 0)) (k : Nat) : Inv (x.state k) := by
  induction k with
  | zero => exact hstart
  | succ k ih =>
    cases hact : x.act k with
    | none =>
      rw [x.rests k hact]
      exact ih
    | some a => exact keep _ a _ ih (hmeets k a hact) (x.moves k a hact)

/-- What every step grows stays grown. -/
theorem Execution.mono (x : Execution step) {R : σ → σ → Prop} (refl : ∀ s, R s s)
    (trans : ∀ {s t u}, R s t → R t u → R s u) (grow : ∀ s a t, step s a = some t → R s t) (k d : Nat) :
    R (x.state k) (x.state (k + d)) := by
  induction d with
  | zero => exact refl _
  | succ d ih =>
    refine trans ih ?_
    cases hact : x.act (k + d) with
    | none =>
      rw [← Nat.add_assoc, x.rests _ hact]
      exact refl _
    | some a => exact grow _ a _ (x.moves _ a hact)

/-- A finite run, behind which nothing happens any more. -/
def Execution.ofRun (step : σ → α → Option σ) (s : σ) (acts : List α) (h : (run step s acts).isSome) : Execution step where
  state k := (run step s (acts.take k)).getD s
  act k := acts[k]?
  moves k a hact := by
    obtain ⟨t, ht⟩ := Option.isSome_iff_exists.mp h
    have hsplit : run step s (acts.take k ++ acts.drop k) = some t := by rwa [List.take_append_drop]
    have hdrop : acts.drop k = a :: acts.drop (k + 1) := by
      obtain ⟨hk, rfl⟩ := List.getElem?_eq_some_iff.mp hact
      exact List.drop_eq_getElem_cons hk
    rw [run_append, hdrop] at hsplit
    obtain ⟨u, hu, hrest⟩ := Option.bind_eq_some_iff.mp hsplit
    obtain ⟨v, hv, _⟩ := Option.bind_eq_some_iff.mp hrest
    rw [List.take_add_one, hact, run_append, hu]
    simp [run, hv]
  rests k hact := by
    have hlength : acts.length ≤ k := List.getElem?_eq_none_iff.mp hact
    rw [List.take_of_length_le hlength, List.take_of_length_le (Nat.le_succ_of_le hlength)]

theorem Execution.ofRun_end {s t : σ} {acts : List α} (h : run step s acts = some t) {k : Nat} (hk : acts.length ≤ k) :
    (Execution.ofRun step s acts (by rw [h]; rfl)).state k = t := by
  simp [ofRun, List.take_of_length_le hk, h]

/-- Such a run is fair when no process has a step to take at its end. -/
theorem Execution.fair_ofRun {s t : σ} {acts : List α} (h : run step s acts = some t)
    (hrest : ∀ i, ¬ Enabled step own i t) : (Execution.ofRun step s acts (by rw [h]; rfl)).Fair own := by
  intro i k henabled
  have hend := henabled (max k acts.length) (Nat.le_max_left ..)
  rw [ofRun_end h (Nat.le_max_right ..)] at hend
  exact absurd hend (hrest i)

/-- Rank rule. `Pending i n s` says that the goal is `n` away and process `i` has to move: a step of
`i` that meets `P` brings the goal nearer, and such a step of another process does or leaves all as it is. -/
theorem Execution.Fair.leads_given (Inv : σ → Prop) (P : σ → α → Prop) (Pending : π → Nat → σ → Prop) (hfair : x.Fair own)
    (hinv : ∀ k, Inv (x.state k)) (enabled : ∀ i n s, Inv s → Pending i n s → Enabled step own i s)
    (near : ∀ i n s a t, Inv s → P s a → Pending i n s → step s a = some t →
      Goal t ∨ (∃ j m, m < n ∧ Pending j m t) ∨ (¬ own i a ∧ Pending i n t))
    {i : π} {n k : Nat} (hmeets : ∀ j ≥ k, ∀ a, x.act j = some a → P (x.state j) a) (hpending : Pending i n (x.state k)) :
    ∃ j ≥ k, Goal (x.state j) := by
  induction n using Nat.strongRecOn generalizing i k with
  | _ n ih =>
    by_contra hnever
    -- With the goal out of reach nothing comes nearer, so `i` stays enabled.
    have hlower : ∀ j ≥ k, ∀ i' m, m < n → ¬ Pending i' m (x.state j) := by
      intro j hj i' m hm hp
      obtain ⟨j', hj', hgoal⟩ := ih m hm (fun l hl => hmeets l (Nat.le_trans hj hl)) hp
      exact hnever ⟨j', Nat.le_trans hj hj', hgoal⟩
    have hstays : ∀ d, Pending i n (x.state (k + d)) := by
      intro d
      induction d with
      | zero => exact hpending
      | succ d ihd =>
        cases hact : x.act (k + d) with
        | none =>
          rw [← Nat.add_assoc, x.rests _ hact]
          exact ihd
        | some a =>
          rcases near i n _ a _ (hinv _) (hmeets _ (Nat.le_add_right k d) a hact) ihd (x.moves _ a hact) with
            hgoal | ⟨i', m, hm, hp⟩ | ⟨_, hp⟩
          · exact absurd ⟨_, by omega, hgoal⟩ hnever
          · exact absurd hp (hlower _ (by omega) i' m hm)
          · exact hp
    have hat : ∀ j ≥ k, Pending i n (x.state j) := by
      intro j hj
      obtain ⟨d, rfl⟩ := Nat.exists_eq_add_of_le hj
      exact hstays d
    obtain ⟨j, hj, a, hact, hown⟩ := hfair i k fun j hj => enabled i n _ (hinv j) (hat j hj)
    rcases near i n _ a _ (hinv j) (hmeets j hj a hact) (hat j hj) (x.moves j a hact) with
      hgoal | ⟨i', m, hm, hp⟩ | ⟨hnot, _⟩
    · exact hnever ⟨j + 1, by omega, hgoal⟩
    · exact hlower (j + 1) (by omega) i' m hm hp
    · exact hnot hown

theorem Execution.Fair.leads (Inv : σ → Prop) (Pending : π → Nat → σ → Prop) (hfair : x.Fair own) (hinv : ∀ k, Inv (x.state k))
    (enabled : ∀ i n s, Inv s → Pending i n s → Enabled step own i s)
    (near : ∀ i n s a t, Inv s → Pending i n s → step s a = some t →
      Goal t ∨ (∃ j m, m < n ∧ Pending j m t) ∨ (¬ own i a ∧ Pending i n t))
    {i : π} {n k : Nat} (hpending : Pending i n (x.state k)) : ∃ j ≥ k, Goal (x.state j) :=
  hfair.leads_given Inv (fun _ _ => True) Pending hinv enabled (fun i n s a t hs _ hp hstep => near i n s a t hs hp hstep)
    (fun _ _ _ _ => trivial) hpending

end Stash.Foundation.FairRuns
