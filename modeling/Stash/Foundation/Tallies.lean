import Mathlib.Algebra.BigOperators.Group.Finset.Basic
import Mathlib.Algebra.Order.BigOperators.Group.Finset
import Mathlib.Data.Fintype.BigOperators

/-! Sums over the members of a group, when one member changes at a time. -/
namespace Stash.Foundation.Tallies
variable {ι β : Type*} [Fintype ι]

/-- What a change of one member moves the sum by. -/
theorem sum_update [DecidableEq ι] (g : β → Nat) (f : ι → β) (i : ι) (v : β) :
    ∑ j, g (Function.update f i v j) + g (f i) = ∑ j, g (f j) + g v := by
  have hrest : ∑ j ∈ Finset.univ.erase i, g (Function.update f i v j) = ∑ j ∈ Finset.univ.erase i, g (f j) := by
    apply Finset.sum_congr rfl
    intro j hj
    rw [Function.update_of_ne (Finset.ne_of_mem_erase hj)]
  rw [← Finset.add_sum_erase _ _ (Finset.mem_univ i), ← Finset.add_sum_erase Finset.univ (fun j => g (f j))
    (Finset.mem_univ i), hrest, Function.update_self]
  omega

/-- The members with a property. -/
def tally (p : β → Bool) (f : ι → β) : Nat := ∑ i, (p (f i)).toNat

variable {p : β → Bool} {f : ι → β}

theorem tally_update [DecidableEq ι] (p : β → Bool) (f : ι → β) (i : ι) (v : β) :
    tally p (Function.update f i v) + (p (f i)).toNat = tally p f + (p v).toNat :=
  sum_update (fun b => (p b).toNat) f i v

theorem tally_pos : 0 < tally p f ↔ ∃ i, p (f i) = true := by
  rw [tally, Finset.sum_pos_iff]
  constructor
  · rintro ⟨i, _, hi⟩
    exact ⟨i, by cases hp : p (f i) with | false => rw [hp] at hi; cases hi | true => rfl⟩
  · rintro ⟨i, hi⟩
    exact ⟨i, Finset.mem_univ i, by rw [hi]; decide⟩

theorem tally_le_card (p : β → Bool) (f : ι → β) : tally p f ≤ Fintype.card ι := by
  rw [tally, Fintype.card_eq_sum_ones]
  apply Finset.sum_le_sum
  intro i _
  exact Bool.toNat_le _

end Stash.Foundation.Tallies
