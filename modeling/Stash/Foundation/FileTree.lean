import Mathlib.Data.List.DropRight
import Mathlib.Data.List.Nodup
import Stash.Foundation.Paths

/-! A file system as the list of its entries, in the order in which directories are read.
The calls resolve a path entry by entry and give the entry that they create, open or remove. -/
namespace Stash.Foundation.FileTree
open CText Paths

inductive Errno where
  | enoent
  | enotdir
  | eisdir
  | eexist
  | enotempty
  | einval
  | eacces
  | eperm
  | enospc
  | enametoolong
  | other
  deriving DecidableEq, Repr

inductive Node where
  | dir
  | file (content : Bytes)
  deriving DecidableEq, Repr

def Node.isDir : Node → Bool
  | .dir => true
  | .file _ => false

/-- Every path has at most one entry. -/
structure Fs where
  entries : List (Path × Node)
  nodup : (entries.map Prod.fst).Nodup

namespace Fs

def node (fs : Fs) (p : Path) : Option Node := (fs.entries.find? fun e => e.1 = p).map Prod.snd

/-- The entry takes its place in the directory, or a new one at its end. -/
def insertEntries (entries : List (Path × Node)) (p : Path) (n : Node) : List (Path × Node) :=
  if p ∈ entries.map Prod.fst then entries.map fun e => if e.1 = p then (p, n) else e
  else entries ++ [(p, n)]

theorem keys_replace (entries : List (Path × Node)) (p : Path) (n : Node) :
    (entries.map fun e => if e.1 = p then (p, n) else e).map Prod.fst = entries.map Prod.fst := by
  rw [List.map_map]
  apply List.map_congr_left
  intro e _
  by_cases h : e.1 = p <;> simp [h]

def insert (fs : Fs) (p : Path) (n : Node) : Fs where
  entries := insertEntries fs.entries p n
  nodup := by
    unfold insertEntries
    split
    · rw [keys_replace]
      exact fs.nodup
    · rename_i h
      rw [List.map_append, List.nodup_append]
      refine ⟨fs.nodup, by simp, fun q hq r hr => ?_⟩
      rintro rfl
      obtain rfl : q = p := by simpa using hr
      exact h hq

def erase (fs : Fs) (p : Path) : Fs where
  entries := fs.entries.filter fun e => e.1 ≠ p
  nodup := fs.nodup.sublist (List.filter_sublist.map Prod.fst)

/-- The name of an entry of a directory. -/
def nameIn (dir : Path) : Path × Node → Option Bytes
  | (name :: parent, _) => if parent = dir then some name else none
  | _ => none

/-- The names in a directory, in the order of the entries. -/
def readdir (fs : Fs) (dir : Path) : List Bytes := fs.entries.filterMap (nameIn dir)

/-- The length of a file, if there is one. -/
def fileSize (fs : Fs) (p : Path) : Option Nat :=
  match fs.node p with
  | some (.file content) => some content.length
  | _ => none

/-- The name and the length of a file in a directory. -/
def fileIn (dir : Path) : Path × Node → Option (Bytes × Nat)
  | (name :: parent, .file content) => if parent = dir then some (name, content.length) else none
  | _ => none

/-- The files in a directory with their lengths. -/
def filesIn (fs : Fs) (dir : Path) : List (Bytes × Nat) := fs.entries.filterMap (fileIn dir)

/-- What the files in a directory add up to. -/
def bytesIn (fs : Fs) (dir : Path) : Nat := ((fs.filesIn dir).map Prod.snd).sum

variable {fs : Fs} {p q : Path} {n : Node}

theorem node_eq_some : fs.node p = some n ↔ (p, n) ∈ fs.entries := by
  unfold node
  constructor
  · intro h
    obtain ⟨e, he, rfl⟩ := Option.map_eq_some_iff.mp h
    have hp := List.find?_some he
    have hmem := List.mem_of_find?_eq_some he
    obtain rfl : e.1 = p := by simpa using hp
    exact hmem
  · intro h
    cases hf : fs.entries.find? fun e => e.1 = p with
    | none => simpa using List.find?_eq_none.mp hf (p, n) h
    | some e =>
      have hp : e.1 = p := by simpa using List.find?_some hf
      have hinj := List.inj_on_of_nodup_map fs.nodup (List.mem_of_find?_eq_some hf) h hp
      simp [hinj]

theorem node_eq_none : fs.node p = none ↔ ∀ n, (p, n) ∉ fs.entries := by
  constructor
  · intro h n hmem
    rw [node_eq_some.mpr hmem] at h
    cases h
  · intro h
    cases hn : fs.node p with
    | none => rfl
    | some n => exact absurd (node_eq_some.mp hn) (h n)

theorem mem_insert {m : Node} :
    (q, m) ∈ (fs.insert p n).entries ↔ (q = p ∧ m = n) ∨ (q ≠ p ∧ (q, m) ∈ fs.entries) := by
  simp only [insert, insertEntries]
  split
  · rename_i hp
    rw [List.mem_map]
    constructor
    · rintro ⟨e, he, heq⟩
      split at heq
      · obtain ⟨rfl, rfl⟩ := Prod.mk.inj heq
        exact .inl ⟨rfl, rfl⟩
      · rename_i hne
        subst heq
        exact .inr ⟨hne, he⟩
    · rintro (⟨rfl, rfl⟩ | ⟨hne, hmem⟩)
      · obtain ⟨e, he, hfst⟩ := List.mem_map.mp hp
        exact ⟨e, he, by simp [hfst]⟩
      · exact ⟨_, hmem, by simp [hne]⟩
  · rename_i hp
    rw [List.mem_append, List.mem_singleton, Prod.mk.injEq]
    constructor
    · rintro (hmem | heq)
      · refine .inr ⟨?_, hmem⟩
        rintro rfl
        exact hp (List.mem_map.mpr ⟨_, hmem, rfl⟩)
      · exact .inl heq
    · rintro (heq | ⟨_, hmem⟩)
      · exact .inr heq
      · exact .inl hmem

@[simp] theorem node_insert (fs : Fs) (p : Path) (n : Node) (q : Path) :
    (fs.insert p n).node q = if q = p then some n else fs.node q := by
  split
  · rename_i h
    subst h
    exact node_eq_some.mpr (mem_insert.mpr (.inl ⟨rfl, rfl⟩))
  · rename_i h
    cases hq : fs.node q with
    | none =>
      refine node_eq_none.mpr fun m hm => ?_
      rcases mem_insert.mp hm with ⟨rfl, _⟩ | ⟨_, hmem⟩
      · exact h rfl
      · exact node_eq_none.mp hq m hmem
    | some m => exact node_eq_some.mpr (mem_insert.mpr (.inr ⟨h, node_eq_some.mp hq⟩))

theorem mem_erase {m : Node} : (q, m) ∈ (fs.erase p).entries ↔ q ≠ p ∧ (q, m) ∈ fs.entries := by
  simp [erase, and_comm]

@[simp] theorem node_erase (fs : Fs) (p q : Path) :
    (fs.erase p).node q = if q = p then none else fs.node q := by
  split
  · rename_i h
    subst h
    exact node_eq_none.mpr fun m hm => (mem_erase.mp hm).1 rfl
  · rename_i h
    cases hq : fs.node q with
    | none => exact node_eq_none.mpr fun m hm => node_eq_none.mp hq m (mem_erase.mp hm).2
    | some m => exact node_eq_some.mpr (mem_erase.mpr ⟨h, node_eq_some.mp hq⟩)

theorem nameIn_eq_some {dir : Path} {e : Path × Node} {name : Bytes} :
    nameIn dir e = some name ↔ e.1 = name :: dir := by
  unfold nameIn
  split
  · rename_i first parent n
    rw [List.cons.injEq]
    constructor
    · intro h
      split at h
      · rename_i hdir
        exact ⟨Option.some.inj h, hdir⟩
      · cases h
    · rintro ⟨rfl, rfl⟩
      rw [if_pos rfl]
  · rename_i hother
    simp only [reduceCtorEq, false_iff]
    intro heq
    exact hother name dir e.2 (Prod.ext heq rfl)

theorem mem_readdir {dir : Path} {name : Bytes} :
    name ∈ fs.readdir dir ↔ ∃ n, fs.node (name :: dir) = some n := by
  rw [readdir, List.mem_filterMap]
  constructor
  · rintro ⟨⟨p, n⟩, hmem, h⟩
    obtain rfl : p = name :: dir := nameIn_eq_some.mp h
    exact ⟨n, node_eq_some.mpr hmem⟩
  · rintro ⟨n, hn⟩
    exact ⟨_, node_eq_some.mp hn, nameIn_eq_some.mpr rfl⟩

theorem nodup_readdir (fs : Fs) (dir : Path) : (fs.readdir dir).Nodup := by
  rw [readdir, List.Nodup, List.pairwise_filterMap]
  refine List.Pairwise.imp ?_ (List.pairwise_map.mp fs.nodup)
  rintro e other hne name he _ hother rfl
  exact hne ((nameIn_eq_some.mp he).trans (nameIn_eq_some.mp hother).symm)

theorem mem_readdir_insert {dir : Path} {name other : Bytes} :
    other ∈ (fs.insert (name :: dir) n).readdir dir ↔ other = name ∨ other ∈ fs.readdir dir := by
  rw [mem_readdir, mem_readdir, node_insert]
  by_cases h : other = name
  · simp [h]
  · simp [h]

theorem mem_readdir_erase {dir : Path} {name other : Bytes} :
    other ∈ (fs.erase (name :: dir)).readdir dir ↔ other ≠ name ∧ other ∈ fs.readdir dir := by
  rw [mem_readdir, mem_readdir, node_erase]
  by_cases h : other = name
  · simp [h]
  · simp [h]

/-- A directory has no entry of its own name. -/
theorem mem_readdir_self {dir : Path} {name : Bytes} :
    name ∈ (fs.insert dir n).readdir dir ↔ name ∈ fs.readdir dir := by
  rw [mem_readdir, mem_readdir, node_insert, if_neg (List.cons_ne_self name dir)]

theorem fileSize_eq_some {size : Nat} :
    fs.fileSize p = some size ↔ ∃ content, fs.node p = some (.file content) ∧ content.length = size := by
  unfold fileSize
  split
  · rename_i hnode
    simp [hnode]
  · rename_i hnode
    simp only [reduceCtorEq, false_iff, not_exists, not_and]
    exact fun content h => absurd h (hnode content)

/-- Where no file was and none comes, the lengths of files stay. -/
theorem fileSize_insert_dir (h : fs.fileSize p = none) :
    (fs.insert p .dir).fileSize q = fs.fileSize q := by
  by_cases hq : q = p
  · subst hq
    rw [h, fileSize, node_insert, if_pos rfl]
  · rw [fileSize, node_insert, if_neg hq, fileSize]

theorem fileSize_insert_file (content : Bytes) :
    (fs.insert p (.file content)).fileSize q = if q = p then some content.length else fs.fileSize q := by
  by_cases hq : q = p
  · rw [fileSize, node_insert, if_pos hq, if_pos hq]
  · rw [fileSize, node_insert, if_neg hq, if_neg hq, fileSize]

theorem fileSize_erase : (fs.erase p).fileSize q = if q = p then none else fs.fileSize q := by
  by_cases hq : q = p
  · rw [fileSize, node_erase, if_pos hq, if_pos hq]
  · rw [fileSize, node_erase, if_neg hq, if_neg hq, fileSize]

theorem fileIn_eq_some {dir : Path} {e : Path × Node} {name : Bytes} {size : Nat} :
    fileIn dir e = some (name, size) ↔ ∃ content, e = (name :: dir, .file content) ∧ content.length = size := by
  unfold fileIn
  split
  · rename_i first parent content
    constructor
    · intro h
      split at h
      · rename_i hdir
        obtain ⟨rfl, rfl⟩ := Prod.mk.inj (Option.some.inj h)
        exact ⟨content, by rw [hdir], rfl⟩
      · cases h
    · rintro ⟨other, heq, rfl⟩
      obtain ⟨hpath, hnode⟩ := Prod.mk.inj heq
      obtain ⟨rfl, rfl⟩ := List.cons.inj hpath
      rw [if_pos rfl, Node.file.inj hnode]
  · rename_i hother
    simp only [reduceCtorEq, false_iff, not_exists, not_and]
    intro content heq
    exact absurd heq (hother _ _ _)

theorem mem_filesIn {dir : Path} {name : Bytes} {size : Nat} :
    (name, size) ∈ fs.filesIn dir ↔ fs.fileSize (name :: dir) = some size := by
  rw [fileSize_eq_some, filesIn, List.mem_filterMap]
  constructor
  · rintro ⟨e, hmem, h⟩
    obtain ⟨content, rfl, hlen⟩ := fileIn_eq_some.mp h
    exact ⟨content, node_eq_some.mpr hmem, hlen⟩
  · rintro ⟨content, hnode, hlen⟩
    exact ⟨_, node_eq_some.mp hnode, fileIn_eq_some.mpr ⟨content, rfl, hlen⟩⟩

theorem nodup_filesIn (dir : Path) : (fs.filesIn dir).Nodup := by
  rw [filesIn, List.Nodup, List.pairwise_filterMap]
  refine List.Pairwise.imp ?_ (List.pairwise_map.mp fs.nodup)
  rintro e other hne ⟨name, size⟩ he _ hother rfl
  obtain ⟨_, rfl, _⟩ := fileIn_eq_some.mp he
  obtain ⟨_, rfl, _⟩ := fileIn_eq_some.mp hother
  exact hne rfl

/-- One component of a path that must lead to a directory. -/
def stepInto (fs : Fs) (dir : Path) (component : Bytes) : Except Errno Path :=
  if isName component then
    match fs.node (component :: dir) with
    | some .dir => .ok (component :: dir)
    | some (.file _) => .error .enotdir
    | none => .error .enoent
  else .ok (enter dir component)

def walk (fs : Fs) (dir : Path) (parts : List Bytes) : Except Errno Path :=
  parts.foldlM fs.stepInto dir

/-- Slashes at the end of a path are not components of it. -/
def trimSlashes (parts : List Bytes) : List Bytes := parts.rdropWhile fun c => c = []

/-- The entry that the last component names; other last components fail with `special`. -/
def locate (fs : Fs) (dir : Path) (parts : List Bytes) (special : Errno) : Except Errno Path :=
  (fs.walk dir parts.dropLast).bind fun parent =>
    if isName (parts.getLastD []) then .ok (parts.getLastD [] :: parent) else .error special

/-- The entry that `mkdir` creates. -/
def mkdir (fs : Fs) (dir : Path) (parts : List Bytes) : Except Errno Path :=
  (fs.locate dir (trimSlashes parts) .eexist).bind fun p =>
    match fs.node p with
    | some _ => .error .eexist
    | none => .ok p

/-- The file that `fopen` creates or truncates in mode "wb". -/
def openWrite (fs : Fs) (dir : Path) (parts : List Bytes) : Except Errno Path :=
  (fs.locate dir parts .eisdir).bind fun p =>
    match fs.node p with
    | some .dir => .error .eisdir
    | _ => .ok p

/-- What `fopen` opens in mode "rb"; a directory can be opened, but not read. -/
def openRead (fs : Fs) (dir : Path) (parts : List Bytes) : Except Errno Node :=
  if isName (parts.getLastD []) then
    (fs.locate dir parts .einval).bind fun p =>
      match fs.node p with
      | some n => .ok n
      | none => .error .enoent
  else (fs.walk dir parts).map fun _ => .dir

/-- The names that are read from the directory that `opendir` opens. -/
def opendir (fs : Fs) (dir : Path) (parts : List Bytes) : Except Errno (List Bytes) :=
  (fs.walk dir parts).map fs.readdir

/-- The file or empty directory that `remove` takes away. -/
def remove (fs : Fs) (dir : Path) (parts : List Bytes) : Except Errno Path :=
  (fs.locate dir (trimSlashes parts) .einval).bind fun p =>
    match fs.node p with
    | none => .error .enoent
    | some (.file _) => if trimSlashes parts = parts then .ok p else .error .enotdir
    | some .dir => if fs.readdir p = [] then .ok p else .error .enotempty

theorem walk_nil (fs : Fs) (dir : Path) : fs.walk dir [] = .ok dir := rfl

theorem walk_cons (fs : Fs) (dir : Path) (c : Bytes) (parts : List Bytes) :
    fs.walk dir (c :: parts) = (fs.stepInto dir c).bind fun d => fs.walk d parts := rfl

theorem walk_append (fs : Fs) (dir : Path) (parts more : List Bytes) :
    fs.walk dir (parts ++ more) = (fs.walk dir parts).bind fun d => fs.walk d more := by
  rw [walk, List.foldlM_append]
  rfl

/-- A walk that succeeds meets directories only. -/
theorem walk_ok {dir d : Path} {parts : List Bytes} :
    fs.walk dir parts = .ok d ↔ d = resolve dir parts ∧ ∀ p ∈ lookups dir parts, fs.node p = some .dir := by
  induction parts generalizing dir with
  | nil => simp [walk_nil, resolve, lookups, eq_comm]
  | cons c parts ih =>
    rw [walk_cons]
    by_cases hname : isName c = true
    · have henter : enter dir c = c :: dir := by simp [enter, hname]
      simp only [stepInto, hname, if_true, lookups, List.mem_cons, forall_eq_or_imp, resolve,
        List.foldl_cons, henter]
      cases hn : fs.node (c :: dir) with
      | none => simp [Except.bind]
      | some n =>
        cases n with
        | file content => simp [Except.bind]
        | dir =>
          simp only [Except.bind, true_and]
          exact ih
    · simp only [stepInto, hname, Bool.false_eq_true, if_false, Except.bind, lookups, resolve,
        List.foldl_cons]
      exact ih

/-- Walks through the same entries end alike. -/
theorem walk_congr {fs' : Fs} {dir : Path} {parts : List Bytes}
    (h : ∀ p ∈ lookups dir parts, fs.node p = fs'.node p) : fs.walk dir parts = fs'.walk dir parts := by
  induction parts generalizing dir with
  | nil => rfl
  | cons c parts ih =>
    rw [walk_cons, walk_cons]
    by_cases hname : isName c = true
    · simp only [lookups, hname, if_true, List.mem_cons, forall_eq_or_imp] at h
      simp only [stepInto, hname, if_true, h.1]
      cases fs'.node (c :: dir) with
      | none => rfl
      | some n =>
        cases n with
        | file content => rfl
        | dir => exact ih h.2
    · simp only [lookups, hname, Bool.false_eq_true, if_false] at h
      simp only [stepInto, hname, Bool.false_eq_true, if_false]
      exact ih h

theorem trimSlashes_append_slash (parts : List Bytes) : trimSlashes (parts ++ [[]]) = trimSlashes parts := by
  rw [trimSlashes, List.rdropWhile_concat_pos _ _ _ (by simp)]
  rfl

theorem trimSlashes_name {parts : List Bytes} (h : parts.getLastD [] ≠ []) : trimSlashes parts = parts := by
  induction parts using List.reverseRecOn with
  | nil => rfl
  | append_singleton parts c _ =>
    rw [List.getLastD_concat] at h
    exact List.rdropWhile_concat_neg _ _ _ (by simpa using h)

@[simp] theorem resolve_trimSlashes (dir : Path) (parts : List Bytes) :
    resolve dir (trimSlashes parts) = resolve dir parts := by
  induction parts using List.reverseRecOn with
  | nil => rfl
  | append_singleton parts c ih =>
    by_cases hc : c = []
    · rw [hc, trimSlashes_append_slash, ih, resolve_append]
      rfl
    · rw [trimSlashes_name (by rwa [List.getLastD_concat])]

@[simp] theorem lookups_trimSlashes (dir : Path) (parts : List Bytes) :
    lookups dir (trimSlashes parts) = lookups dir parts := by
  induction parts using List.reverseRecOn with
  | nil => rfl
  | append_singleton parts c ih =>
    by_cases hc : c = []
    · rw [hc, trimSlashes_append_slash, ih, lookups_append]
      simp [lookups, isName]
    · rw [trimSlashes_name (by rwa [List.getLastD_concat])]

/-- An entry is located through directories, where the path leads. -/
theorem locate_ok {dir : Path} {parts : List Bytes} {special : Errno} :
    fs.locate dir parts special = .ok p ↔ isName (parts.getLastD []) = true ∧ p = resolve dir parts ∧
      ∀ q ∈ lookups dir parts.dropLast, fs.node q = some .dir := by
  have hlast := resolve_dropLast dir parts
  unfold locate
  constructor
  · intro h
    cases hw : fs.walk dir parts.dropLast with
    | error e =>
      rw [hw] at h
      cases h
    | ok parent =>
      obtain ⟨rfl, hdirs⟩ := walk_ok.mp hw
      rw [hw, Except.bind] at h
      split at h
      · rename_i hname
        rw [enter, if_pos hname] at hlast
        exact ⟨hname, (Except.ok.inj h).symm.trans hlast.symm, hdirs⟩
      · cases h
  · rintro ⟨hname, rfl, hdirs⟩
    rw [enter, if_pos hname] at hlast
    rw [walk_ok.mpr ⟨rfl, hdirs⟩, Except.bind, if_pos hname, hlast]

/-- The first entry on the way that is not there, or not a directory, ends the walk. -/
theorem walk_missing {dir : Path} {front back : List Bytes} {name : Bytes} (hname : isName name = true)
    (hfront : ∀ q ∈ lookups dir front, fs.node q = some .dir)
    (hp : fs.node (name :: resolve dir front) = none) :
    fs.walk dir (front ++ name :: back) = .error .enoent := by
  rw [walk_append, walk_ok.mpr ⟨rfl, hfront⟩, Except.bind, walk_cons, stepInto, if_pos hname, hp]
  rfl

theorem walk_blocked {dir : Path} {front back : List Bytes} {name content : Bytes}
    (hname : isName name = true) (hfront : ∀ q ∈ lookups dir front, fs.node q = some .dir)
    (hp : fs.node (name :: resolve dir front) = some (.file content)) :
    fs.walk dir (front ++ name :: back) = .error .enotdir := by
  rw [walk_append, walk_ok.mpr ⟨rfl, hfront⟩, Except.bind, walk_cons, stepInto, if_pos hname, hp]
  rfl

/-- Reading behind such an entry fails with the error of the walk. -/
theorem openRead_of_walk {dir : Path} {parts : List Bytes} {e : Errno}
    (h : fs.walk dir parts = .error e) (hlast : fs.walk dir parts.dropLast = .error e) :
    fs.openRead dir parts = .error e := by
  rw [openRead, locate, h, hlast]
  split
  · rfl
  · rfl

/-- Reading the last entry of a path. -/
theorem openRead_located {dir : Path} {parts : List Bytes} (h : fs.locate dir parts .einval = .ok p) :
    (∀ n, fs.node p = some n → fs.openRead dir parts = .ok n) ∧
      (fs.node p = none → fs.openRead dir parts = .error .enoent) := by
  rw [openRead, if_pos (locate_ok.mp h).1, h, Except.bind]
  constructor
  · intro n hn
    rw [hn]
  · intro hn
    rw [hn]

theorem openWrite_ok {dir : Path} {parts : List Bytes} : fs.openWrite dir parts = .ok p ↔
    fs.locate dir parts .eisdir = .ok p ∧ fs.node p ≠ some .dir := by
  unfold openWrite
  cases fs.locate dir parts .eisdir with
  | error e => simp [Except.bind]
  | ok q =>
    simp only [Except.bind]
    split
    · rename_i hdir
      simp only [reduceCtorEq, Except.ok.injEq, false_iff, not_and, not_not]
      rintro rfl
      exact hdir
    · rename_i hother
      simp only [Except.ok.injEq, iff_self_and]
      rintro rfl
      exact hother

theorem mkdir_ok {dir : Path} {parts : List Bytes} (h : fs.mkdir dir parts = .ok p) :
    fs.locate dir (trimSlashes parts) .eexist = .ok p ∧ fs.node p = none := by
  unfold mkdir at h
  cases hl : fs.locate dir (trimSlashes parts) .eexist with
  | error e =>
    rw [hl] at h
    cases h
  | ok q =>
    rw [hl, Except.bind] at h
    split at h
    · cases h
    · rename_i hnone
      rw [← Except.ok.inj h]
      exact ⟨rfl, hnone⟩

theorem remove_ok {dir : Path} {parts : List Bytes} (h : fs.remove dir parts = .ok p) :
    fs.locate dir (trimSlashes parts) .einval = .ok p ∧ (fs.node p).isSome := by
  unfold remove at h
  cases hl : fs.locate dir (trimSlashes parts) .einval with
  | error e =>
    rw [hl] at h
    cases h
  | ok q =>
    rw [hl, Except.bind] at h
    split at h
    · cases h
    · rename_i hfile
      split at h
      · rw [← Except.ok.inj h, hfile]
        exact ⟨rfl, rfl⟩
      · cases h
    · rename_i hdir
      split at h
      · rw [← Except.ok.inj h, hdir]
        exact ⟨rfl, rfl⟩
      · cases h

/-- The file that was opened for writing can be removed under the same path. -/
theorem remove_written {dir : Path} {parts : List Bytes} (h : fs.openWrite dir parts = .ok p)
    (content : Bytes) : (fs.insert p (.file content)).remove dir parts = .ok p := by
  obtain ⟨hlocate, hfile⟩ := openWrite_ok.mp h
  obtain ⟨hname, hp, hdirs⟩ := locate_ok.mp hlocate
  have htrim : trimSlashes parts = parts := by
    apply trimSlashes_name
    intro hnil
    rw [hnil] at hname
    exact absurd hname (by decide)
  have hagain : (fs.insert p (.file content)).locate dir parts .einval = .ok p := by
    refine locate_ok.mpr ⟨hname, hp, fun q hq => ?_⟩
    rw [node_insert, if_neg, hdirs q hq]
    rintro rfl
    exact hfile (hdirs q hq)
  rw [remove, htrim, hagain]
  simp [Except.bind]

theorem remove_dir {dir : Path} {parts : List Bytes} (h : fs.locate dir (trimSlashes parts) .einval = .ok p)
    (hdir : fs.node p = some .dir) :
    fs.remove dir parts = if fs.readdir p = [] then .ok p else .error .enotempty := by
  rw [remove, h, Except.bind, hdir]

/-- The root has no entry, but it is a directory. -/
def HasDir (fs : Fs) (p : Path) : Prop := p = [] ∨ fs.node p = some .dir

/-- Every entry is in a directory, and the working directory is there. -/
structure Tree (cwd : Path) (fs : Fs) : Prop where
  root : fs.node [] = none
  parent : ∀ name p, (fs.node (name :: p)).isSome → fs.HasDir p
  above : ∀ p, p <:+ cwd → fs.HasDir p

variable {cwd : Path}

/-- An entry is located in a directory. -/
theorem Tree.located (ht : fs.Tree cwd) {parts : List Bytes} {special : Errno}
    (h : fs.locate cwd parts special = .ok p) : ∃ name parent, p = name :: parent ∧ fs.HasDir parent := by
  obtain ⟨hname, hp, hdirs⟩ := locate_ok.mp h
  rw [resolve_dropLast, enter, if_pos hname] at hp
  refine ⟨_, _, hp, ?_⟩
  rcases resolve_suffix (List.suffix_refl _) with hs | hl
  · exact ht.above _ hs
  · exact .inr (hdirs _ hl)

theorem HasDir.insert (hp : fs.node p = some .dir → n = .dir) {d : Path} (h : fs.HasDir d) :
    (fs.insert p n).HasDir d := by
  rcases h with rfl | hdir
  · exact .inl rfl
  · right
    rw [node_insert]
    split
    · rename_i hd
      rw [hp (hd ▸ hdir)]
    · exact hdir

/-- A new entry in a directory keeps the tree, if it does not take the place of a directory. -/
theorem Tree.insert (ht : fs.Tree cwd) {name : Bytes} {parent : Path} (hparent : fs.HasDir parent)
    (hp : fs.node (name :: parent) = some .dir → n = .dir) : (fs.insert (name :: parent) n).Tree cwd where
  root := by
    rw [node_insert, if_neg (List.cons_ne_nil _ _).symm]
    exact ht.root
  parent := by
    intro other p hsome
    rw [node_insert] at hsome
    split at hsome
    · rename_i heq
      obtain ⟨_, rfl⟩ := List.cons.inj heq
      exact hparent.insert hp
    · exact (ht.parent other p hsome).insert hp
  above := fun p hs => (ht.above p hs).insert hp

theorem Tree.mkdir (ht : fs.Tree cwd) {parts : List Bytes} (h : fs.mkdir cwd parts = .ok p) :
    (fs.insert p .dir).Tree cwd := by
  obtain ⟨name, parent, rfl, hparent⟩ := ht.located (mkdir_ok h).1
  exact ht.insert hparent fun _ => rfl

theorem Tree.openWrite (ht : fs.Tree cwd) {parts : List Bytes} (h : fs.openWrite cwd parts = .ok p)
    (content : Bytes) : (fs.insert p (.file content)).Tree cwd := by
  obtain ⟨hlocate, hfile⟩ := openWrite_ok.mp h
  obtain ⟨name, parent, rfl, hparent⟩ := ht.located hlocate
  exact ht.insert hparent fun hdir => absurd hdir hfile

/-- Only directories have entries. -/
theorem Tree.childless (ht : fs.Tree cwd) {content : Bytes} (h : fs.node p = some (.file content))
    (name : Bytes) : fs.node (name :: p) = none := by
  cases hn : fs.node (name :: p) with
  | none => rfl
  | some n =>
    rcases ht.parent name p (by rw [hn]; rfl) with rfl | hdir
    · rw [ht.root] at h
      cases h
    · rw [h] at hdir
      cases hdir

/-- An entry without entries below it can go, if the working directory is not below it. -/
theorem Tree.erase (ht : fs.Tree cwd) (hbelow : ∀ name, fs.node (name :: p) = none)
    (hcwd : ¬ p <:+ cwd) : (fs.erase p).Tree cwd := by
  have hkeep {d : Path} (hd : d ≠ p) (h : fs.HasDir d) : (fs.erase p).HasDir d := by
    rcases h with rfl | hdir
    · exact .inl rfl
    · exact .inr (by rw [node_erase, if_neg hd, hdir])
  refine ⟨?_, fun name d hsome => ?_, fun d hs => ?_⟩
  · rw [node_erase]
    split
    · rfl
    · exact ht.root
  · rw [node_erase] at hsome
    split at hsome
    · cases hsome
    · refine hkeep ?_ (ht.parent name d hsome)
      rintro rfl
      rw [hbelow name] at hsome
      cases hsome
  · refine hkeep ?_ (ht.above d hs)
    rintro rfl
    exact hcwd hs

/-- What `remove` takes away has no entries. -/
theorem Tree.remove_below (ht : fs.Tree cwd) {parts : List Bytes} (h : fs.remove cwd parts = .ok p)
    (name : Bytes) : fs.node (name :: p) = none := by
  unfold remove at h
  cases hl : fs.locate cwd (trimSlashes parts) .einval with
  | error e =>
    rw [hl] at h
    cases h
  | ok q =>
    rw [hl, Except.bind] at h
    split at h
    · cases h
    · rename_i hfile
      split at h
      · rw [← Except.ok.inj h]
        exact ht.childless hfile name
      · cases h
    · split at h
      · rename_i hempty
        rw [← Except.ok.inj h]
        cases hn : fs.node (name :: q) with
        | none => rfl
        | some n =>
          have hmem := mem_readdir.mpr ⟨n, hn⟩
          rw [hempty] at hmem
          cases hmem
      · cases h

/-- A directory above an entry has entries. -/
theorem Tree.has_entry (ht : fs.Tree cwd) (hq : (fs.node q).isSome) (hp : p <:+ q) (hne : p ≠ q) :
    ∃ name, (fs.node (name :: p)).isSome := by
  induction q with
  | nil => exact absurd (List.suffix_nil.mp hp) hne
  | cons name parent ih =>
    have hs := (List.suffix_cons_iff.mp hp).resolve_left hne
    by_cases heq : p = parent
    · rw [heq]
      exact ⟨name, hq⟩
    · rcases ht.parent name parent hq with rfl | hdir
      · exact absurd (List.suffix_nil.mp hs) heq
      · exact ih (by rw [hdir]; rfl) hs heq

/-- Removing keeps the tree: a path that starts with an entry of the working directory does
not lead to a directory above it that is empty. -/
theorem Tree.removed (ht : fs.Tree cwd) {first : Bytes} {parts : List Bytes} (hfirst : isName first = true)
    (h : fs.remove cwd (first :: parts) = .ok p) : (fs.erase p).Tree cwd := by
  refine ht.erase (ht.remove_below h) fun hcwd => ?_
  obtain ⟨hlocate, _⟩ := remove_ok h
  obtain ⟨hname, hp, hdirs⟩ := locate_ok.mp hlocate
  have hprefix : trimSlashes (first :: parts) <+: first :: parts := List.rdropWhile_prefix _ _
  cases htrim : trimSlashes (first :: parts) with
  | nil =>
    rw [htrim] at hname
    exact absurd hname (by decide)
  | cons head rest =>
    rw [htrim] at hprefix hp hdirs
    obtain ⟨rfl, _⟩ := List.cons_prefix_cons.mp hprefix
    cases rest with
    | nil =>
      rw [resolve_name hfirst] at hp
      rw [hp] at hcwd
      exact absurd hcwd.length_le (by simp)
    | cons next rest =>
      have hstorage : fs.node (head :: cwd) = some .dir := by
        apply hdirs
        simp [lookups, hfirst]
      have hne : p ≠ head :: cwd := by
        rintro rfl
        exact absurd hcwd.length_le (by simp)
      obtain ⟨name, hsome⟩ :=
        ht.has_entry (by rw [hstorage]; rfl) (hcwd.trans (List.suffix_cons _ _)) hne
      rw [ht.remove_below h name] at hsome
      cases hsome

end Fs

end Stash.Foundation.FileTree
