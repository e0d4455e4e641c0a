import Mathlib.Data.List.Dedup
import Mathlib.Data.List.Infix
import Stash.Foundation.FileViews

/-! File systems that hold nothing but the directories of some paths, and one file more. -/
namespace Stash.Foundation.FileTree
open CText Paths

/-- Directories that make a tree in which `top` exists. -/
structure Grove (top : Path) where
  dirs : List Path
  nodup : dirs.Nodup
  root : [] ∉ dirs
  parent : ∀ name p, name :: p ∈ dirs → p = [] ∨ p ∈ dirs
  above : ∀ p, p <:+ top → p = [] ∨ p ∈ dirs

namespace Grove
variable {top : Path}

/-- The directories above `top` and those that are looked up from `dir`. -/
def along (top dir : Path) (hdir : dir <:+ top) (parts : List Bytes) : Grove top where
  dirs := (top.tails ++ lookups dir parts).dedup.filter fun p => p ≠ []
  nodup := (List.nodup_dedup _).filter _
  root := by simp
  parent := by
    intro name p h
    simp only [List.mem_filter, List.mem_dedup, List.mem_append, List.mem_tails, ne_eq,
      decide_eq_true_eq] at h ⊢
    by_cases hp : p = []
    · exact .inl hp
    · refine .inr ⟨?_, hp⟩
      rcases h.1 with hs | hl
      · exact .inl ((List.suffix_cons name p).trans hs)
      · rcases lookups_suffix hl (List.suffix_cons name p) with hs | hl
        · exact .inl (hs.trans hdir)
        · exact .inr hl
  above := by
    intro p hs
    simp only [List.mem_filter, List.mem_dedup, List.mem_append, List.mem_tails, ne_eq,
      decide_eq_true_eq]
    by_cases hp : p = []
    · exact .inl hp
    · exact .inr ⟨.inl hs, hp⟩

theorem mem_along {dir p : Path} {hdir : dir <:+ top} {parts : List Bytes} :
    p ∈ (along top dir hdir parts).dirs ↔ p ≠ [] ∧ (p <:+ top ∨ p ∈ lookups dir parts) := by
  simp [along, and_comm]

theorem mem_of_lookup {dir p : Path} {parts : List Bytes} (hdir : dir <:+ top) (h : p ∈ lookups dir parts) :
    p ∈ (along top dir hdir parts).dirs := by
  obtain ⟨name, _, parent, rfl⟩ := lookups_name h
  exact mem_along.mpr ⟨List.cons_ne_nil _ _, .inr h⟩

theorem resolve_along {dir : Path} (hdir : dir <:+ top) (parts : List Bytes) :
    resolve dir parts = [] ∨ resolve dir parts ∈ (along top dir hdir parts).dirs := by
  rcases resolve_suffix (List.suffix_refl (resolve dir parts)) with hs | hl
  · exact (along top dir hdir parts).above _ (hs.trans hdir)
  · exact .inr (mem_of_lookup hdir hl)

/-- Only the directories. -/
def bare (g : Grove top) : Fs where
  entries := g.dirs.map fun p => (p, .dir)
  nodup := by
    rw [List.map_map]
    exact (List.map_id g.dirs).symm ▸ g.nodup

/-- The directories and a file, which is read before them. -/
def planted (g : Grove top) (p : Path) (content : Bytes) (hp : p ∉ g.dirs) : Fs where
  entries := (p, .file content) :: g.bare.entries
  nodup := by
    refine List.nodup_cons.mpr ⟨?_, g.bare.nodup⟩
    simpa [bare] using hp

variable {g : Grove top} {p q : Path} {content : Bytes} {hp : p ∉ g.dirs}

theorem node_bare : g.bare.node q = if q ∈ g.dirs then some .dir else none := by
  split
  · rename_i hq
    exact Fs.node_eq_some.mpr (List.mem_map.mpr ⟨q, hq, rfl⟩)
  · rename_i hq
    refine Fs.node_eq_none.mpr fun n hmem => ?_
    obtain ⟨d, hd, heq⟩ := List.mem_map.mp hmem
    exact hq ((Prod.mk.inj heq).1 ▸ hd)

theorem node_planted : (g.planted p content hp).node q =
    if q = p then some (.file content) else if q ∈ g.dirs then some .dir else none := by
  split
  · rename_i hq
    rw [hq]
    exact Fs.node_eq_some.mpr List.mem_cons_self
  · rename_i hq
    rw [← node_bare]
    apply Option.ext
    intro n
    rw [Fs.node_eq_some, Fs.node_eq_some]
    constructor
    · intro hmem
      rcases List.mem_cons.mp hmem with heq | hmem
      · exact absurd (Prod.mk.inj heq).1 hq
      · exact hmem
    · exact List.mem_cons_of_mem _

theorem tree_bare {cwd : Path} (hcwd : cwd <:+ top) : g.bare.Tree cwd where
  root := by rw [node_bare, if_neg g.root]
  parent := by
    intro name p hsome
    rw [node_bare] at hsome
    split at hsome
    · rename_i hmem
      rcases g.parent name p hmem with rfl | hdir
      · exact .inl rfl
      · exact .inr (by rw [node_bare, if_pos hdir])
    · cases hsome
  above := by
    intro p hs
    rcases g.above p (hs.trans hcwd) with rfl | hdir
    · exact .inl rfl
    · exact .inr (by rw [node_bare, if_pos hdir])

theorem hasDir_planted {d : Path} (hd : d = [] ∨ d ∈ g.dirs) : (g.planted p content hp).HasDir d := by
  rcases hd with rfl | hd
  · exact .inl rfl
  · right
    rw [node_planted, if_neg, if_pos hd]
    rintro rfl
    exact hp hd

theorem tree_planted {cwd parent : Path} {name : Bytes} {hp : name :: parent ∉ g.dirs} (hcwd : cwd <:+ top)
    (hparent : parent = [] ∨ parent ∈ g.dirs) : (g.planted (name :: parent) content hp).Tree cwd where
  root := by rw [node_planted, if_neg (List.cons_ne_nil _ _).symm, if_neg g.root]
  parent := by
    intro other d hsome
    apply hasDir_planted
    rw [node_planted] at hsome
    split at hsome
    · rename_i heq
      rw [(List.cons.inj heq).2]
      exact hparent
    · split at hsome
      · rename_i hmem
        exact g.parent other d hmem
      · cases hsome
  above := fun d hs => hasDir_planted (g.above d (hs.trans hcwd))

/-- The directories on the way of a path are there in both. -/
theorem dirs_bare {dir : Path} (hdir : dir <:+ top) {parts : List Bytes} (h : p ∈ lookups dir parts) :
    (along top dir hdir parts).bare.node p = some .dir := by
  rw [node_bare, if_pos (mem_of_lookup hdir h)]

theorem dirs_planted {dir : Path} (hdir : dir <:+ top) {parts : List Bytes}
    (hp : p ∉ (along top dir hdir parts).dirs) (content : Bytes) (h : q ∈ lookups dir parts) :
    ((along top dir hdir parts).planted p content hp).node q = some .dir := by
  have hq := mem_of_lookup hdir h
  exact (hasDir_planted (.inr hq)).resolve_left fun hnil => (along top dir hdir parts).root (hnil ▸ hq)

theorem readdir_planted {name : Bytes} {parent : Path} (hp : name :: parent ∉ g.dirs) (content : Bytes) :
    (g.planted (name :: parent) content hp).readdir parent = name :: g.bare.readdir parent := by
  rw [Fs.readdir, planted, List.filterMap_cons_some (Fs.nameIn_eq_some.mpr rfl)]
  rfl

/-- A hidden file does not show. -/
theorem view_planted {hidden : Path → Bool} (hhidden : hidden p = true) :
    (g.planted p content hp).view hidden = g.bare.view hidden := by
  rw [Fs.view, Fs.view, planted, List.filter_cons, if_neg]
  simp [Fs.inView, hhidden, Node.isDir]

end Grove

end Stash.Foundation.FileTree
