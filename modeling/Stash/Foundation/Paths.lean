import Mathlib.Data.List.Induction
import Stash.Foundation.CText

/-! Paths of a hierarchical file system. A directory is named by its components from the
leaf to the root, so that its parent is the tail of the list. -/
namespace Stash.Foundation.Paths
open CText

abbrev Path := List Bytes

def slash : UInt8 := 47
def dot : Bytes := ascii "."
def dotdot : Bytes := ascii ".."

/-- The parts of a path text between its slashes. -/
def components : Bytes → List Bytes
  | [] => [[]]
  | c :: rest =>
    if c = slash then [] :: components rest
    else
      match components rest with
      | [] => [[c]]
      | name :: names => (c :: name) :: names

/-- A component that stands for an entry of a directory. -/
def isName (component : Bytes) : Bool :=
  component != [] && component != dot && component != dotdot

/-- Where a component leads from a directory; the root is its own parent. -/
def enter (dir : Path) (component : Bytes) : Path :=
  if isName component then component :: dir
  else if component = dotdot then dir.tail
  else dir

def resolve (dir : Path) (parts : List Bytes) : Path := parts.foldl enter dir

/-- The entries that are looked up while a path is resolved. -/
def lookups : Path → List Bytes → List Path
  | _, [] => []
  | dir, c :: parts =>
    if isName c then (c :: dir) :: lookups (c :: dir) parts else lookups (enter dir c) parts

theorem components_ne_nil (text : Bytes) : components text ≠ [] := by
  cases text with
  | nil => simp [components]
  | cons c rest =>
    unfold components
    split
    · simp
    · split <;> simp

theorem components_length_le {text component : Bytes} (h : component ∈ components text) :
    component.length ≤ text.length := by
  induction text generalizing component with
  | nil =>
    rw [components, List.mem_singleton] at h
    rw [h]
  | cons c rest ih =>
    simp only [components] at h
    split at h
    · rcases List.mem_cons.mp h with rfl | hmem
      · exact Nat.zero_le _
      · exact (ih hmem).trans (Nat.le_succ _)
    · split at h
      · rw [List.mem_singleton.mp h]
        simp
      · rename_i name names hrest
        rcases List.mem_cons.mp h with rfl | hmem
        · exact Nat.succ_le_succ (ih (by rw [hrest]; simp))
        · exact (ih (by rw [hrest]; exact List.mem_cons_of_mem _ hmem)).trans (Nat.le_succ _)

theorem components_append_slash (before after : Bytes) :
    components (before ++ slash :: after) = components before ++ components after := by
  induction before with
  | nil => simp [components]
  | cons c before ih =>
    simp only [List.cons_append, components, ih]
    split
    · rfl
    · cases hc : components before with
      | nil => exact absurd hc (components_ne_nil before)
      | cons name names => rfl

theorem components_of_no_slash {text : Bytes} (h : slash ∉ text) : components text = [text] := by
  induction text with
  | nil => rfl
  | cons c text ih =>
    simp only [List.mem_cons, not_or] at h
    simp [components, ih h.2, Ne.symm h.1]

/-- The parts of a path text between slashes are the text. -/
theorem intercalate_components (text : Bytes) : [slash].intercalate (components text) = text := by
  induction text with
  | nil => rfl
  | cons c rest ih =>
    simp only [components]
    split
    · rename_i hslash
      rw [List.intercalate_cons_of_ne_nil (components_ne_nil rest), ih, hslash]
      rfl
    · cases hrest : components rest with
      | nil => exact absurd hrest (components_ne_nil rest)
      | cons name names =>
        rw [hrest] at ih
        simp only [List.intercalate_cons_cons_left, ih]

theorem components_injective : Function.Injective components := fun a b h => by
  rw [← intercalate_components a, h, intercalate_components]

theorem resolve_append (dir : Path) (parts more : List Bytes) :
    resolve dir (parts ++ more) = resolve (resolve dir parts) more := by
  simp [resolve]

@[simp] theorem resolve_name {dir : Path} {name : Bytes} (h : isName name = true) :
    resolve dir [name] = name :: dir := by
  simp [resolve, enter, h]

/-- Parts that are all names lead downwards. -/
theorem resolve_names {dir : Path} {parts : List Bytes} (h : ∀ c ∈ parts, isName c = true) :
    resolve dir parts = parts.reverse ++ dir := by
  induction parts using List.reverseRecOn with
  | nil => rfl
  | append_singleton parts c ih =>
    have hc : isName c = true := h c (by simp)
    rw [resolve_append, ih fun c' hc' => h c' (List.mem_append_left _ hc'), resolve_name hc, List.reverse_append]
    rfl

theorem lookups_append (dir : Path) (parts more : List Bytes) :
    lookups dir (parts ++ more) = lookups dir parts ++ lookups (resolve dir parts) more := by
  induction parts generalizing dir with
  | nil => rfl
  | cons c parts ih =>
    simp only [List.cons_append, lookups]
    split
    · rename_i h
      have he : enter dir c = c :: dir := by simp [enter, h]
      simp [ih, resolve, he]
    · simp [ih, resolve]

/-- Where a looked-up entry stands among the components. -/
theorem lookups_split {dir p : Path} {parts : List Bytes} {before after : List Path}
    (h : lookups dir parts = before ++ p :: after) : ∃ front name back,
      parts = front ++ name :: back ∧ isName name = true ∧ lookups dir front = before ∧
        p = name :: resolve dir front := by
  induction parts generalizing dir before with
  | nil => simp [lookups] at h
  | cons c parts ih =>
    simp only [lookups] at h
    by_cases hname : isName c = true
    · rw [if_pos hname] at h
      cases before with
      | nil =>
        obtain ⟨rfl, _⟩ := List.cons.inj h
        exact ⟨[], c, parts, rfl, hname, rfl, rfl⟩
      | cons first before =>
        obtain ⟨rfl, hrest⟩ := List.cons.inj h
        obtain ⟨front, name, back, rfl, hn, hl, hp⟩ := ih hrest
        have he : enter dir c = c :: dir := by simp [enter, hname]
        refine ⟨c :: front, name, back, rfl, hn, ?_, ?_⟩
        · rw [lookups, if_pos hname, hl]
        · rw [hp, resolve, resolve, List.foldl_cons, he]
    · rw [if_neg hname] at h
      obtain ⟨front, name, back, rfl, hn, hl, hp⟩ := ih h
      refine ⟨c :: front, name, back, rfl, hn, ?_, ?_⟩
      · rw [lookups, if_neg hname, hl]
      · rw [hp, resolve, resolve, List.foldl_cons]

/-- What is looked up on the way down lies above the end. -/
theorem lookups_names {dir p : Path} {parts : List Bytes} (h : ∀ c ∈ parts, isName c = true) (hp : p ∈ lookups dir parts) :
    p ≠ [] ∧ p <:+ resolve dir parts := by
  obtain ⟨before, after, hsplit⟩ := List.append_of_mem hp
  obtain ⟨front, name, back, rfl, hname, _, rfl⟩ := lookups_split hsplit
  refine ⟨List.cons_ne_nil _ _, ?_⟩
  have hback : ∀ c ∈ back, isName c = true := fun c hc => h c (by simp [hc])
  have hwhole : front ++ name :: back = (front ++ [name]) ++ back := by simp
  rw [hwhole, resolve_append, resolve_append, resolve_name hname, resolve_names hback]
  exact List.suffix_append _ _

/-- A looked-up entry has one of the components as its name. -/
theorem lookups_name {dir p : Path} {parts : List Bytes} (h : p ∈ lookups dir parts) :
    ∃ name ∈ parts, ∃ parent, p = name :: parent := by
  obtain ⟨before, after, hsplit⟩ := List.append_of_mem h
  obtain ⟨front, name, back, rfl, _, _, hp⟩ := lookups_split hsplit
  exact ⟨name, by simp, _, hp⟩

theorem resolve_dropLast (dir : Path) (parts : List Bytes) :
    resolve dir parts = enter (resolve dir parts.dropLast) (parts.getLastD []) := by
  induction parts using List.reverseRecOn with
  | nil => rfl
  | append_singleton parts c _ => rw [List.dropLast_concat, List.getLastD_concat, resolve_append]; rfl

/-- A name at the end is looked up last, where the path leads. -/
theorem lookups_name_last {dir : Path} {parts : List Bytes} (h : isName (parts.getLastD []) = true) :
    lookups dir parts = lookups dir parts.dropLast ++ [resolve dir parts] := by
  have hlast := resolve_dropLast dir parts
  rw [enter, if_pos h] at hlast
  rw [hlast]
  induction parts using List.reverseRecOn with
  | nil => exact absurd h (by decide)
  | append_singleton parts c _ =>
    rw [List.getLastD_concat] at h
    rw [List.dropLast_concat, List.getLastD_concat, lookups_append, lookups, if_pos h]
    rfl

/-- Every directory above the place that a path leads to lies above the start or was looked
up on the way. -/
theorem resolve_suffix {dir p : Path} {parts : List Bytes} (h : p <:+ resolve dir parts) :
    p <:+ dir ∨ p ∈ lookups dir parts := by
  induction parts generalizing dir with
  | nil => exact .inl h
  | cons c parts ih =>
    have hstep : p <:+ enter dir c ∨ p ∈ lookups (enter dir c) parts := ih h
    simp only [lookups]
    by_cases hname : isName c = true
    · have he : enter dir c = c :: dir := by simp [enter, hname]
      rw [he] at hstep
      rw [if_pos hname]
      rcases hstep with hs | hl
      · rcases List.suffix_cons_iff.mp hs with rfl | hs
        · exact .inr (by simp)
        · exact .inl hs
      · exact .inr (List.mem_cons_of_mem _ hl)
    · rw [if_neg hname]
      rcases hstep with hs | hl
      · refine .inl (hs.trans ?_)
        unfold enter
        split
        · contradiction
        · split
          · exact List.tail_suffix dir
          · exact List.suffix_refl dir
      · exact .inr hl

/-- The same for the directories above an entry that was looked up. -/
theorem lookups_suffix {dir p q : Path} {parts : List Bytes} (hq : q ∈ lookups dir parts)
    (h : p <:+ q) : p <:+ dir ∨ p ∈ lookups dir parts := by
  induction parts generalizing dir with
  | nil => cases hq
  | cons c parts ih =>
    simp only [lookups] at hq ⊢
    by_cases hname : isName c = true
    · rw [if_pos hname] at hq ⊢
      have above (hs : p <:+ c :: dir) : p <:+ dir ∨ p ∈ (c :: dir) :: lookups (c :: dir) parts := by
        rcases List.suffix_cons_iff.mp hs with rfl | hs
        · exact .inr (by simp)
        · exact .inl hs
      rcases List.mem_cons.mp hq with rfl | hq
      · exact above h
      · rcases ih hq with hs | hl
        · exact above hs
        · exact .inr (List.mem_cons_of_mem _ hl)
    · rw [if_neg hname] at hq ⊢
      rcases ih hq with hs | hl
      · refine .inl (hs.trans ?_)
        unfold enter
        split
        · contradiction
        · split
          · exact List.tail_suffix dir
          · exact List.suffix_refl dir
      · exact .inr hl

end Stash.Foundation.Paths
