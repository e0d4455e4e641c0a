import Mathlib.Data.List.Induction

/-! Logs in which every entry is justified by what stands before it. -/
namespace Stash.Foundation.Histories
variable {α : Type*} {P : α → List α → Prop} {log : List α} {a : α}

/-- `P` holds of every entry and the part of the log in front of it. -/
def Justified (P : α → List α → Prop) (log : List α) : Prop :=
  ∀ before a after, log = before ++ a :: after → P a before

theorem justified_nil : Justified P [] := fun before a after h => by simp at h

theorem Justified.concat (h : Justified P log) (ha : P a log) : Justified P (log ++ [a]) := by
  intro before b after hlog
  rcases List.eq_nil_or_concat after with rfl | ⟨after, last, rfl⟩
  · obtain rfl : log = before := List.append_inj_left' hlog rfl
    obtain rfl : a = b := List.singleton_inj.mp (List.append_inj_right' hlog rfl)
    exact ha
  · rw [List.concat_eq_append, ← List.cons_append, ← List.append_assoc] at hlog
    exact h before b after (List.append_inj_left' hlog rfl)

theorem Justified.append (h : Justified P log) {new : List α} (hnew : ∀ a ∈ new, ∀ more, P a (log ++ more)) :
    Justified P (log ++ new) := by
  induction new using List.reverseRecOn with
  | nil => rwa [List.append_nil]
  | append_singleton new a ih =>
    rw [← List.append_assoc]
    refine (ih fun b hb => hnew b (List.mem_append_left _ hb)).concat ?_
    exact hnew a (List.mem_append_right _ (List.mem_singleton_self a)) new

end Stash.Foundation.Histories
