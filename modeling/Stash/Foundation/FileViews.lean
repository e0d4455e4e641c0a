import Stash.Foundation.FileTree

/-! What is left of a file system when some of its files are hidden, and the calls whose
result is the same in file systems with one view. Directories are never hidden. -/
namespace Stash.Foundation.FileTree.Fs
open CText Paths

def inView (hidden : Path → Bool) (e : Path × Node) : Bool := !hidden e.1 || e.2.isDir

/-- The entries that are not hidden files. -/
def view (hidden : Path → Bool) (fs : Fs) : List (Path × Node) := fs.entries.filter (inView hidden)

section
variable {hidden : Path → Bool} {fs fs' : Fs} {p q dir : Path} {n : Node}

theorem mem_view : (p, n) ∈ fs.view hidden ↔ fs.node p = some n ∧ (hidden p = false ∨ n = .dir) := by
  rw [view, List.mem_filter, node_eq_some]
  apply and_congr_right
  intro _
  cases n with
  | dir => simp [inView, Node.isDir]
  | file content => simp [inView, Node.isDir]

/-- A path that is not hidden has the same entry in both. -/
theorem node_of_view (h : fs.view hidden = fs'.view hidden) (hp : hidden p = false) :
    fs.node p = fs'.node p := by
  apply Option.ext
  intro n
  have hmem : (p, n) ∈ fs.view hidden ↔ _ := mem_view
  rw [h, mem_view] at hmem
  simpa [hp] using hmem.symm

theorem dir_of_view (h : fs.view hidden = fs'.view hidden) : fs.node p = some .dir ↔ fs'.node p = some .dir := by
  have hmem : (p, Node.dir) ∈ fs.view hidden ↔ _ := mem_view
  rw [h, mem_view] at hmem
  simpa using hmem.symm

/-- A new entry that is not hidden comes into the view at the same place. -/
theorem view_insert (hp : hidden p = false) :
    (fs.insert p n).view hidden = insertEntries (fs.view hidden) p n := by
  have hkeep (m : Node) : inView hidden (p, m) = true := by simp [inView, hp]
  have hkeys : p ∈ fs.entries.map Prod.fst ↔ p ∈ (fs.view hidden).map Prod.fst := by
    rw [List.mem_map, List.mem_map]
    constructor
    · rintro ⟨⟨q, m⟩, hmem, rfl⟩
      exact ⟨_, List.mem_filter.mpr ⟨hmem, hkeep m⟩, rfl⟩
    · rintro ⟨e, hmem, he⟩
      exact ⟨e, (List.mem_filter.mp hmem).1, he⟩
  change (insertEntries fs.entries p n).filter (inView hidden) = insertEntries (fs.view hidden) p n
  unfold insertEntries
  by_cases hin : p ∈ fs.entries.map Prod.fst
  · rw [if_pos hin, if_pos (hkeys.mp hin), view, List.filter_map]
    congr 1
    apply List.filter_congr
    intro e _
    simp only [Function.comp]
    split
    · rename_i he
      rw [hkeep n, ← hkeep e.2, ← he]
    · rfl
  · rw [if_neg hin, if_neg fun hmem => hin (hkeys.mpr hmem), List.filter_append, view]
    simp [hkeep n]

theorem view_erase : (fs.erase p).view hidden = (fs.view hidden).filter fun e => e.1 ≠ p := by
  rw [view, view, erase, List.filter_filter, List.filter_filter]
  apply List.filter_congr
  intro e _
  exact Bool.and_comm _ _

/-- A directory without hidden files reads the same. -/
theorem readdir_of_view (h : fs.view hidden = fs'.view hidden)
    (hdir : ∀ name, hidden (name :: dir) = false) : fs.readdir dir = fs'.readdir dir := by
  have hview (fs : Fs) : fs.readdir dir = (fs.view hidden).filterMap (nameIn dir) := by
    rw [readdir, view, List.filterMap_filter]
    apply List.filterMap_congr
    intro e _
    cases hname : nameIn dir e with
    | none => simp
    | some name =>
      have hin : inView hidden e = true := by
        rw [inView, nameIn_eq_some.mp hname, hdir name]
        rfl
      rw [if_pos hin]
  rw [hview fs, hview fs', h]

end

section
variable {fs fs' : Fs} {cwd : Path} {parts : List Bytes}

/-- The same entries are looked up with the same results. -/
def SameLookups (fs fs' : Fs) (cwd : Path) (parts : List Bytes) : Prop :=
  ∀ p ∈ lookups cwd parts, fs.node p = fs'.node p

theorem SameLookups.dropLast (h : SameLookups fs fs' cwd parts) : SameLookups fs fs' cwd parts.dropLast := by
  intro p hp
  apply h
  obtain ⟨tail, htail⟩ := List.dropLast_prefix parts
  rw [← htail, lookups_append]
  exact List.mem_append_left _ hp

theorem SameLookups.trimSlashes (h : SameLookups fs fs' cwd parts) :
    SameLookups fs fs' cwd (trimSlashes parts) := by
  intro p hp
  rw [lookups_trimSlashes] at hp
  exact h p hp

theorem SameLookups.locate (h : SameLookups fs fs' cwd parts) (special : Errno) :
    fs.locate cwd parts special = fs'.locate cwd parts special := by
  rw [Fs.locate, Fs.locate, walk_congr h.dropLast]

/-- What a located path has in both. -/
theorem SameLookups.located (h : SameLookups fs fs' cwd parts) {special : Errno} {p : Path}
    (hp : fs.locate cwd parts special = .ok p) : fs.node p = fs'.node p := by
  obtain ⟨hname, rfl, _⟩ := locate_ok.mp hp
  apply h
  rw [lookups_name_last hname]
  exact List.mem_append_right _ (List.mem_singleton_self _)

theorem SameLookups.mkdir (h : SameLookups fs fs' cwd parts) : fs.mkdir cwd parts = fs'.mkdir cwd parts := by
  rw [Fs.mkdir, Fs.mkdir, ← h.trimSlashes.locate]
  cases hl : fs.locate cwd (Fs.trimSlashes parts) .eexist with
  | error e => rfl
  | ok p =>
    simp only [Except.bind]
    rw [h.trimSlashes.located hl]

theorem SameLookups.openWrite (h : SameLookups fs fs' cwd parts) :
    fs.openWrite cwd parts = fs'.openWrite cwd parts := by
  rw [Fs.openWrite, Fs.openWrite, ← h.locate]
  cases hl : fs.locate cwd parts .eisdir with
  | error e => rfl
  | ok p =>
    simp only [Except.bind]
    rw [h.located hl]

theorem SameLookups.openRead (h : SameLookups fs fs' cwd parts) :
    fs.openRead cwd parts = fs'.openRead cwd parts := by
  rw [Fs.openRead, Fs.openRead, walk_congr h, ← h.locate]
  split
  · cases hl : fs.locate cwd parts .einval with
    | error e => rfl
    | ok p =>
      simp only [Except.bind]
      rw [h.located hl]
  · rfl

/-- An empty directory can be removed in both. -/
theorem SameLookups.remove (h : SameLookups fs fs' cwd parts)
    (hempty : ∀ p, fs.locate cwd (Fs.trimSlashes parts) .einval = .ok p → fs.node p = some .dir →
      (fs.readdir p = [] ↔ fs'.readdir p = [])) :
    fs.remove cwd parts = fs'.remove cwd parts := by
  rw [Fs.remove, Fs.remove, ← h.trimSlashes.locate]
  cases hl : fs.locate cwd (Fs.trimSlashes parts) .einval with
  | error e => rfl
  | ok p =>
    simp only [Except.bind]
    rw [← h.trimSlashes.located hl]
    cases hn : fs.node p with
    | none => rfl
    | some n =>
      cases n with
      | file content => rfl
      | dir => simp only [hempty p hl hn]

end

end Stash.Foundation.FileTree.Fs
