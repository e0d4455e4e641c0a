import Mathlib.Logic.Function.Basic

/-! Things that are handed on between places, each one that has been issued being in one place. -/
namespace Stash.Foundation.Custody
variable {π ι : Type*}

/-- What has been issued is in exactly one place, and nothing else is anywhere. -/
structure Kept (issued : ι → Prop) (has : π → ι → Prop) : Prop where
  somewhere : ∀ i, issued i → ∃ place, has place i
  single : ∀ place place' i, has place i → has place' i → place = place'
  only : ∀ {place i}, has place i → issued i

variable {issued issued' : ι → Prop} {has has' : π → ι → Prop} {i₀ : ι}

theorem Kept.congr (h : Kept issued has) (hsame : ∀ place i, has' place i ↔ has place i) : Kept issued has' where
  somewhere i hi := by
    obtain ⟨place, hplace⟩ := h.somewhere i hi
    exact ⟨place, (hsame place i).mpr hplace⟩
  single _ _ _ hplace hplace' := h.single _ _ _ ((hsame _ _).mp hplace) ((hsame _ _).mp hplace')
  only hplace := h.only ((hsame _ _).mp hplace)

/-- One thing goes from its place to another. -/
theorem Kept.move (h : Kept issued has) (source target : π) (hsource : has source i₀)
    (hleft : ∀ i, has' source i ↔ i ≠ i₀ ∧ has source i) (htarget : ∀ i, has' target i ↔ i = i₀ ∨ has target i)
    (hothers : ∀ place i, place ≠ source → place ≠ target → (has' place i ↔ has place i)) : Kept issued has' := by
  have hmoved : ∀ place i, has' place i → (i = i₀ ∧ place = target) ∨ (i ≠ i₀ ∧ has place i) := by
    intro place i hplace
    by_cases hs : place = source
    · subst hs
      exact .inr ((hleft i).mp hplace)
    · by_cases ht : place = target
      · subst ht
        rcases (htarget i).mp hplace with he | hold
        · exact .inl ⟨he, rfl⟩
        · refine .inr ⟨?_, hold⟩
          rintro rfl
          exact hs (h.single _ _ _ hold hsource)
      · have hold := (hothers place i hs ht).mp hplace
        refine .inr ⟨?_, hold⟩
        rintro rfl
        exact hs (h.single _ _ _ hold hsource)
  refine ⟨fun i hi => ?_, fun _ _ _ hplace hplace' => ?_, fun hplace => ?_⟩
  · by_cases he : i = i₀
    · exact ⟨target, (htarget i).mpr (.inl he)⟩
    · obtain ⟨place, hplace⟩ := h.somewhere i hi
      by_cases hs : place = source
      · subst hs
        exact ⟨place, (hleft i).mpr ⟨he, hplace⟩⟩
      · by_cases ht : place = target
        · subst ht
          exact ⟨place, (htarget i).mpr (.inr hplace)⟩
        · exact ⟨place, (hothers place i hs ht).mpr hplace⟩
  · rcases hmoved _ _ hplace with ⟨he, rfl⟩ | ⟨hne, hold⟩
    · rcases hmoved _ _ hplace' with ⟨_, rfl⟩ | ⟨hne, _⟩
      · rfl
      · exact absurd he hne
    · rcases hmoved _ _ hplace' with ⟨he, _⟩ | ⟨_, hold'⟩
      · exact absurd he hne
      · exact h.single _ _ _ hold hold'
  · rcases hmoved _ _ hplace with ⟨rfl, _⟩ | ⟨_, hold⟩
    · exact h.only hsource
    · exact h.only hold

/-- A new thing comes to a place. -/
theorem Kept.issue (h : Kept issued has) (target : π) (hnew : ¬ issued i₀) (hissued : ∀ i, issued' i ↔ i = i₀ ∨ issued i)
    (hplaced : ∀ place i, has' place i ↔ (i = i₀ ∧ place = target) ∨ has place i) : Kept issued' has' where
  somewhere i hi := by
    rcases (hissued i).mp hi with he | hi
    · exact ⟨target, (hplaced target i).mpr (.inl ⟨he, rfl⟩)⟩
    · obtain ⟨place, hplace⟩ := h.somewhere i hi
      exact ⟨place, (hplaced place i).mpr (.inr hplace)⟩
  single _ _ _ hplace hplace' := by
    rcases (hplaced _ _).mp hplace with ⟨rfl, rfl⟩ | hold
    · rcases (hplaced _ _).mp hplace' with ⟨_, rfl⟩ | hold'
      · rfl
      · exact absurd (h.only hold') hnew
    · rcases (hplaced _ _).mp hplace' with ⟨rfl, _⟩ | hold'
      · exact absurd (h.only hold) hnew
      · exact h.single _ _ _ hold hold'
  only hplace := by
    rcases (hplaced _ _).mp hplace with ⟨rfl, _⟩ | hold
    · exact (hissued _).mpr (.inl rfl)
    · exact (hissued _).mpr (.inr (h.only hold))

/-- The places get other names. -/
theorem Kept.rename (h : Kept issued has) (back : π → π) (hinjective : Function.Injective back)
    (hforth : ∀ place i, has place i → ∃ place', has' place' i)
    (hback : ∀ place i, has' place i → has (back place) i) : Kept issued has' where
  somewhere i hi := by
    obtain ⟨place, hplace⟩ := h.somewhere i hi
    exact hforth place i hplace
  single _ _ _ hplace hplace' := hinjective (h.single _ _ _ (hback _ _ hplace) (hback _ _ hplace'))
  only hplace := h.only (hback _ _ hplace)

end Stash.Foundation.Custody
