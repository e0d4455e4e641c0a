import Mathlib.Data.Nat.ModEq
import Mathlib.Tactic.Ring

/-! Open addressing with linear probing over `n` slots. A scan visits the slots that
follow a start slot cyclically and stops at the first accepted one. -/
namespace Stash.Foundation.LinearProbing

/-- The slot that lies `d` places after `start`. -/
def slot (n start d : Nat) : Nat := (start + d) % n

/-- How many places `i` lies after `start`. -/
def gap (n start i : Nat) : Nat := (i + (n - start)) % n

/-- Visit at most `attempts` slots from `index` on. -/
def scan (n : Nat) (stop : Nat → Bool) : Nat → Nat → Option Nat
  | 0, _ => none
  | attempts + 1, index =>
    if stop index then some index else scan n stop attempts ((index + 1) % n)

/-- Every slot that a scan from `start` visits before `i` is occupied. -/
def Reached (n : Nat) (occupied : Nat → Bool) (start i : Nat) : Prop :=
  ∀ d < gap n start i, occupied (slot n start d) = true

instance (n : Nat) (occupied : Nat → Bool) (start i : Nat) :
    Decidable (Reached n occupied start i) := by
  unfold Reached; infer_instance

variable {n start : Nat}

theorem slot_lt (hn : 0 < n) (d : Nat) : slot n start d < n := Nat.mod_lt _ hn

theorem gap_lt (hn : 0 < n) (i : Nat) : gap n start i < n := Nat.mod_lt _ hn

@[simp] theorem slot_zero (hs : start < n) : slot n start 0 = start := by
  simp [slot, Nat.mod_eq_of_lt hs]

theorem slot_succ (d : Nat) : slot n ((start + 1) % n) d = slot n start (d + 1) := by
  simp only [slot, Nat.mod_add_mod]
  congr 1
  omega

/-- A slot of the table is the one at its own gap. -/
theorem slot_gap (hs : start < n) {i : Nat} (hi : i < n) : slot n start (gap n start i) = i := by
  have he : start + (i + (n - start)) = i + n := by omega
  simp only [slot, gap, Nat.add_mod_mod, he, Nat.add_mod_right, Nat.mod_eq_of_lt hi]

theorem gap_slot (hs : start < n) {d : Nat} (hd : d < n) : gap n start (slot n start d) = d := by
  have he : start + d + (n - start) = d + n := by omega
  simp only [slot, gap, Nat.mod_add_mod, he, Nat.add_mod_right, Nat.mod_eq_of_lt hd]

theorem gap_injective (hs : start < n) {i j : Nat} (hi : i < n) (hj : j < n)
    (h : gap n start i = gap n start j) : i = j := by
  rw [← slot_gap hs hi, ← slot_gap hs hj, h]

variable {stop : Nat → Bool}

theorem scan_start (hn : 0 < n) (h : stop start = true) : scan n stop n start = some start := by
  cases n with
  | zero => cases hn
  | succ n => simp [scan, h]

private theorem scan_from (hn : 0 < n) (attempts : Nat) (hs : start < n) (i : Nat) :
    scan n stop attempts start = some i ↔
      ∃ d < attempts, slot n start d = i ∧ stop i = true ∧
        ∀ e < d, stop (slot n start e) = false := by
  induction attempts generalizing start with
  | zero => simp [scan]
  | succ attempts ih =>
    unfold scan
    by_cases hstop : stop start = true
    · simp only [hstop, if_true, Option.some.injEq]
      constructor
      · rintro rfl
        exact ⟨0, by omega, slot_zero hs, hstop, by simp⟩
      · rintro ⟨d, _, hd, _, hbefore⟩
        cases d with
        | zero => rw [← hd, slot_zero hs]
        | succ d =>
          have := hbefore 0 (by omega)
          rw [slot_zero hs, hstop] at this
          cases this
    · simp only [hstop, Bool.false_eq_true, if_false, ih (Nat.mod_lt _ hn), slot_succ]
      constructor
      · rintro ⟨d, hd, hi, hstop', hbefore⟩
        refine ⟨d + 1, by omega, hi, hstop', fun e he => ?_⟩
        cases e with
        | zero => rw [slot_zero hs]; exact Bool.eq_false_iff.mpr hstop
        | succ e => exact hbefore e (by omega)
      · rintro ⟨d, hd, hi, hstop', hbefore⟩
        cases d with
        | zero =>
          rw [slot_zero hs] at hi
          subst hi
          exact absurd hstop' hstop
        | succ d => exact ⟨d, by omega, hi, hstop', fun e he => hbefore (e + 1) (by omega)⟩

/-- A full scan ends at `i` exactly when `i` is accepted and nothing before it is. -/
theorem scan_eq_some (hs : start < n) {i : Nat} :
    scan n stop n start = some i ↔
      i < n ∧ stop i = true ∧ ∀ d < gap n start i, stop (slot n start d) = false := by
  have hn : 0 < n := by omega
  rw [scan_from hn n hs]
  constructor
  · rintro ⟨d, hd, rfl, hstop, hbefore⟩
    refine ⟨slot_lt hn d, hstop, ?_⟩
    rwa [gap_slot hs hd]
  · rintro ⟨hi, hstop, hbefore⟩
    exact ⟨gap n start i, gap_lt hn i, slot_gap hs hi, hstop, hbefore⟩

/-- A full scan fails exactly when no slot of the table is accepted. -/
theorem scan_eq_none (hs : start < n) :
    scan n stop n start = none ↔ ∀ i < n, stop i = false := by
  have hn : 0 < n := by omega
  constructor
  · intro h i hi
    by_contra hstop
    -- The accepted slot of least gap would have ended the scan.
    have hex : ∃ d, d < n ∧ stop (slot n start d) = true :=
      ⟨gap n start i, gap_lt hn i, by rw [slot_gap hs hi]; simpa using hstop⟩
    classical
    have hfirst := Nat.find_spec hex
    have hsome : scan n stop n start = some (slot n start (Nat.find hex)) := by
      refine (scan_from hn n hs _).mpr ⟨_, hfirst.1, rfl, hfirst.2, fun e he => ?_⟩
      have := Nat.find_min hex he
      simpa [Nat.lt_trans he hfirst.1] using this
    rw [h] at hsome
    cases hsome
  · intro h
    cases hscan : scan n stop n start with
    | none => rfl
    | some i =>
      obtain ⟨hi, hstop, _⟩ := (scan_eq_some hs).mp hscan
      rw [h i hi] at hstop
      cases hstop

/-- Lookup that stops at a free slot: it finds the one slot with the key when that slot
is reached through occupied ones. -/
theorem scan_eq_some_of_reached {occupied hit : Nat → Bool} (hs : start < n) {i : Nat}
    (hi : i < n) (hmatch : hit i = true)
    (hunique : ∀ j < n, occupied j = true → hit j = true → j = i)
    (hreach : Reached n occupied start i) :
    scan n (fun j => !occupied j || hit j) n start = some i := by
  have hn : 0 < n := by omega
  refine (scan_eq_some hs).mpr ⟨hi, by simp [hmatch], fun d hd => ?_⟩
  have ho := hreach d hd
  cases hm : hit (slot n start d) with
  | false => simp [ho]
  | true =>
    have heq := hunique _ (slot_lt hn d) ho hm
    have hg := gap_slot (n := n) hs (Nat.lt_trans hd (gap_lt hn i))
    rw [heq] at hg
    omega

/-- Conversely a lookup that ends at an occupied slot reached it through occupied ones. -/
theorem reached_of_scan {occupied hit : Nat → Bool} (hs : start < n) {i : Nat}
    (h : scan n (fun j => !occupied j || hit j) n start = some i) :
    Reached n occupied start i := by
  intro d hd
  have := ((scan_eq_some hs).mp h).2.2 d hd
  simp only [Bool.or_eq_false_iff, Bool.not_eq_false'] at this
  exact this.1

theorem Reached.mono {occ occ' : Nat → Bool} {i : Nat} (h : Reached n occ start i)
    (himp : ∀ j, occ j = true → occ' j = true) : Reached n occ' start i :=
  fun d hd => himp _ (h d hd)

/-- The probed slot of a reached entry is free only when it lies beyond the entry. -/
theorem Reached.not_free {occ : Nat → Bool} {i j : Nat} (h : Reached n occ start i)
    (hs : start < n) (hj : j < n) (hlt : gap n start j < gap n start i) : occ j = true := by
  have := h _ hlt
  rwa [slot_gap hs hj] at this

end Stash.Foundation.LinearProbing
