import Stash.Foundation.Groves
import Stash.Threads.Isolation

/-! Names that are not confined give the user away: for each of the three conditions a pair of
servers that one command tells apart. -/
namespace Stash.Threads
open Foundation.CText Foundation.Scanf Foundation.Paths Foundation.FileTree Auth

section
variable {cwd : Path} {u v : Username} {f : Filename}

/-- Everything succeeds but the calls of `mkdir`, which have nothing to do. -/
def quietCalls : Calls := { Calls.succeeding with mkdirStorage := some .eexist, mkdirUser := some .eexist }

def bothUsers (u v : Username) : Connection :=
  ⟨⟨[⟨1, u.text, [], 0, 104857600⟩, ⟨2, v.text, [], 0, 104857600⟩], []⟩, none⟩

theorem bothUsers_registered (u v : Username) : ((bothUsers u v).tables.userId u.text).isSome ∧
    ((bothUsers u v).tables.userId v.text).isSome := by
  have hfirst : (bothUsers u v).tables.userId u.text = some 1 := by simp [bothUsers, Tables.userId]
  refine ⟨by rw [hfirst]; rfl, ?_⟩
  by_cases h : u.text = v.text
  · rw [← h, hfirst]
    rfl
  · have hsecond : (bothUsers u v).tables.userId v.text = some 2 := by
      simp [bothUsers, Tables.userId, h]
    rw [hsecond]
    rfl

theorem cwd_storage (cwd : Path) : cwd <:+ storageDir cwd := List.suffix_cons _ _

/-- Twins from the directories along a path: one without, one with a hidden file. -/
theorem twins_planted {hidden : Path → Bool} {g : Grove (storageDir cwd)} {name : Bytes} {parent : Path}
    (hp : name :: parent ∉ g.dirs) (content : Bytes) (hparent : parent = [] ∨ parent ∈ g.dirs)
    (hhidden : hidden (name :: parent) = true) :
    Twins cwd hidden (g.planted (name :: parent) content hp) g.bare where
  tree := Grove.tree_planted (cwd_storage cwd) hparent
  tree' := Grove.tree_bare (cwd_storage cwd)
  storage := by
    have hstorage := (g.above _ (List.suffix_refl _)).resolve_left (List.cons_ne_nil _ _)
    exact (Grove.hasDir_planted (.inr hstorage)).resolve_left (List.cons_ne_nil _ _)
  view := Grove.view_planted hhidden

/-- Isolation on two servers with the same users, for calls that find their directories. -/
theorem Isolated.same_response (h : Isolated cwd u v f) {fs fs' : Fs}
    (htwins : Twins cwd (foreign cwd u v) fs fs') (command : FileCommand) :
    (workerWorker cwd quietCalls ⟨fs, bothUsers u v⟩ (command.task 1 u f)).2 =
      (workerWorker cwd quietCalls ⟨fs', bothUsers u v⟩ (command.task 1 u f)).2 :=
  (h ⟨fs, bothUsers u v⟩ ⟨fs', bothUsers u v⟩ htwins rfl (bothUsers_registered u v).1
    (bothUsers_registered u v).2 1 quietCalls command).response

theorem acquire_quiet {fs : Fs} {task : Task} (hname : task.username = u.text) (command : String) :
    acquire quietCalls ⟨fs, bothUsers u v⟩ task command = .ok () := by
  have hexists : userExists quietCalls.userQuery (bothUsers u v).tables u.text = true := by
    rw [userExists, (bothUsers_registered u v).1]
    rfl
  rw [acquire, hname, hexists]
  rfl

theorem download_ok {fs : Fs} {n : Node} (h : fs.openRead cwd (filePath u.text f.text) = .ok n) :
    (workerWorker cwd quietCalls ⟨fs, bothUsers u v⟩ (FileCommand.download.task 1 u f)).2 =
      readDownload quietCalls n := by
  have ho : openDownload cwd quietCalls ⟨fs, bothUsers u v⟩ (FileCommand.download.task 1 u f) = .ok n :=
    openDownload_ok.mpr ⟨acquire_quiet rfl _, rfl, h⟩
  change taskDownload cwd quietCalls ⟨fs, bothUsers u v⟩ (FileCommand.download.task 1 u f) = _
  rw [taskDownload, ho]

theorem download_error {fs : Fs} {e : Errno} (h : fs.openRead cwd (filePath u.text f.text) = .error e) :
    (workerWorker cwd quietCalls ⟨fs, bothUsers u v⟩ (FileCommand.download.task 1 u f)).2 =
      downloadOpenError e := by
  have ho : openDownload cwd quietCalls ⟨fs, bothUsers u v⟩ (FileCommand.download.task 1 u f) =
      .error (downloadOpenError e) := by
    rw [openDownload, acquire_quiet rfl]
    change (fs.openRead cwd (filePath u.text f.text)).mapError downloadOpenError = _
    rw [h]
    rfl
  change taskDownload cwd quietCalls ⟨fs, bothUsers u v⟩ (FileCommand.download.task 1 u f) = _
  rw [taskDownload, ho]

/-- Reading along a path whose first directories are there: an entry that is missing is not
found, a file in its place is read or is no directory. -/
theorem download_tells {fs fs' : Fs} {front back : List Bytes} {name content : Bytes}
    (hpath : filePath u.text f.text = front ++ name :: back) (hname : isName name = true)
    (hfront : ∀ q ∈ lookups cwd front, fs.node q = some .dir)
    (hfront' : ∀ q ∈ lookups cwd front, fs'.node q = some .dir)
    (hfile : fs.node (name :: resolve cwd front) = some (.file content))
    (hmissing : fs'.node (name :: resolve cwd front) = none) :
    (workerWorker cwd quietCalls ⟨fs, bothUsers u v⟩ (FileCommand.download.task 1 u f)).2 ≠
      (workerWorker cwd quietCalls ⟨fs', bothUsers u v⟩ (FileCommand.download.task 1 u f)).2 := by
  cases back with
  | nil =>
    have hlocate {fs : Fs} (hdirs : ∀ q ∈ lookups cwd front, fs.node q = some .dir) :
        fs.locate cwd (front ++ [name]) .einval = .ok (name :: resolve cwd front) := by
      refine Fs.locate_ok.mpr ⟨by rwa [List.getLastD_concat], ?_, by rwa [List.dropLast_concat]⟩
      rw [resolve_append, resolve_name hname]
    have hopen := (Fs.openRead_located (hlocate hfront)).1 _ hfile
    have hopen' := (Fs.openRead_located (hlocate hfront')).2 hmissing
    rw [← hpath] at hopen hopen'
    rw [download_ok hopen, download_error hopen', readDownload, quietCalls, Calls.succeeding]
    simp [downloadOpenError, failure]
  | cons next rest =>
    have hinit : (front ++ name :: next :: rest).dropLast = front ++ name :: (next :: rest).dropLast := by
      rw [List.dropLast_append_of_ne_nil (List.cons_ne_nil _ _), List.dropLast_cons_of_ne_nil (List.cons_ne_nil _ _)]
    have hopen : fs.openRead cwd (front ++ name :: next :: rest) = .error .enotdir := by
      apply Fs.openRead_of_walk (Fs.walk_blocked hname hfront hfile)
      rw [hinit]
      exact Fs.walk_blocked hname hfront hfile
    have hopen' : fs'.openRead cwd (front ++ name :: next :: rest) = .error .enoent := by
      apply Fs.openRead_of_walk (Fs.walk_missing hname hfront' hmissing)
      rw [hinit]
      exact Fs.walk_missing hname hfront' hmissing
    rw [← hpath] at hopen hopen'
    rw [download_error hopen, download_error hopen']
    simp [downloadOpenError, failure]

/-- A foreign entry on the way: `DOWNLOAD` answers differently when a file is there. -/
theorem Isolated.own (h : Isolated cwd u v f) : ∀ p ∈ lookups cwd (filePath u.text f.text),
    p <:+ storageDir cwd ∨ foreign cwd u v p = false := by
  by_contra hbad
  -- The first such entry: all directories before it can be there.
  have hsome : ((lookups cwd (filePath u.text f.text)).find? fun p =>
      !p.isSuffixOf (storageDir cwd) && foreign cwd u v p).isSome := by
    simp only [not_forall, not_or] at hbad
    obtain ⟨p, hmem, hout, hforeign⟩ := hbad
    refine List.find?_isSome.mpr ⟨p, hmem, ?_⟩
    rw [← List.isSuffixOf_iff_suffix] at hout
    simp only [Bool.not_eq_true, Bool.not_eq_false] at hout hforeign
    rw [hout, hforeign]
    rfl
  obtain ⟨p, hfind⟩ := Option.isSome_iff_exists.mp hsome
  obtain ⟨hp, before, after, hsplit, hbefore⟩ := List.find?_eq_some_iff_append.mp hfind
  obtain ⟨front, name, back, hparts, hname, hfront, rfl⟩ := lookups_split hsplit
  have hforeign := (Bool.and_eq_true_iff.mp hp).2
  let g := Grove.along (storageDir cwd) cwd (cwd_storage cwd) front
  have hnew : name :: resolve cwd front ∉ g.dirs := by
    intro hmem
    rcases (Grove.mem_along.mp hmem).2 with hs | hl
    · rw [List.isSuffixOf_iff_suffix.mpr hs] at hp
      cases hp
    · have hgood := hbefore _ (hfront ▸ hl)
      rw [hp] at hgood
      cases hgood
  have hparent := Grove.resolve_along (cwd_storage cwd) front
  have hsame := h.same_response (twins_planted hnew [] hparent hforeign) .download
  have hfile : (g.planted _ [] hnew).node (name :: resolve cwd front) = some (.file []) := by
    rw [Grove.node_planted, if_pos rfl]
  have hmissing : g.bare.node (name :: resolve cwd front) = none := by
    rw [Grove.node_bare, if_neg hnew]
  exact download_tells hparts hname (fun _ hq => Grove.dirs_planted (cwd_storage cwd) hnew [] hq)
    (fun _ hq => Grove.dirs_bare (cwd_storage cwd) hq) hfile hmissing hsame

theorem delete_ok {fs : Fs} {p : Path} (h : fs.remove cwd (filePath u.text f.text) = .ok p) :
    (workerWorker cwd quietCalls ⟨fs, bothUsers u v⟩ (FileCommand.delete.task 1 u f)).2.status = .success := by
  have ho : removeDelete cwd quietCalls ⟨fs, bothUsers u v⟩ (FileCommand.delete.task 1 u f) = .ok p :=
    removeDelete_ok.mpr ⟨acquire_quiet rfl _, rfl, h⟩
  change (taskDelete cwd quietCalls ⟨fs, bothUsers u v⟩ (FileCommand.delete.task 1 u f)).2.status = _
  rw [taskDelete, ho]

theorem delete_error {fs : Fs} {e : Errno} (h : fs.remove cwd (filePath u.text f.text) = .error e) :
    (workerWorker cwd quietCalls ⟨fs, bothUsers u v⟩ (FileCommand.delete.task 1 u f)).2 = deleteError e := by
  have ho : removeDelete cwd quietCalls ⟨fs, bothUsers u v⟩ (FileCommand.delete.task 1 u f) =
      .error (deleteError e) := by
    rw [removeDelete, acquire_quiet rfl]
    change (fs.remove cwd (filePath u.text f.text)).mapError deleteError = _
    rw [h]
    rfl
  change (taskDelete cwd quietCalls ⟨fs, bothUsers u v⟩ (FileCommand.delete.task 1 u f)).2 = _
  rw [taskDelete, ho]

/-- Below a place that is not wholly the user's own there is room for a foreign file. -/
theorem exists_foreign {p : Path} (h : ¬ (homeDir cwd u <:+ p ∧ ¬ homeDir cwd v <:+ p)) :
    ∃ name, foreign cwd u v (name :: p) = true := by
  by_contra hnone
  have hown (name : Bytes) : foreign cwd u v (name :: p) = false := by
    simpa using fun hf => hnone ⟨name, hf⟩
  -- Two names would both have to be that of the user's directory.
  have hu : homeDir cwd u <:+ p := by
    have hx := List.suffix_cons_iff.mp (foreign_eq_false.mp (hown (ascii "x"))).1
    have hy := List.suffix_cons_iff.mp (foreign_eq_false.mp (hown (ascii "y"))).1
    rcases hx with hx | hx
    · rcases hy with hy | hy
      · exact absurd (List.cons.inj (hx.symm.trans hy)).1 (by decide)
      · exact hy
    · exact hx
  refine h ⟨hu, fun hv => ?_⟩
  have heq := (foreign_eq_false.mp (hown (ascii "x"))).2 (hv.trans (List.suffix_cons _ _))
  have hlen := hv.length_le
  rw [← heq] at hlen
  simp at hlen

theorem storage_mem_lookups (u : Username) (f : Filename) :
    storageDir cwd ∈ lookups cwd (filePath u.text f.text) := by
  have hname : isName (ascii "storage") = true := by decide
  rw [filePath_eq u.length_le f.length_le, lookups, if_pos hname]
  exact List.mem_cons_self

/-- A place with room for a foreign file that no entry was passed through: `DELETE` takes it
away only when it is empty. -/
theorem Isolated.last (h : Isolated cwd u v f)
    (hlast : isName ((Fs.trimSlashes (filePath u.text f.text)).getLastD []) = true) :
    (∃ p ∈ lookups cwd (filePath u.text f.text),
      target cwd u.text f.text <:+ p ∧ p ≠ target cwd u.text f.text) ∨
    (homeDir cwd u <:+ target cwd u.text f.text ∧ ¬ homeDir cwd v <:+ target cwd u.text f.text) := by
  by_contra hbad
  rw [not_or] at hbad
  obtain ⟨hpassed, hown⟩ := hbad
  obtain ⟨name, hforeign⟩ := exists_foreign hown
  let g := Grove.along (storageDir cwd) cwd (cwd_storage cwd) (filePath u.text f.text)
  have hends (q : Path) (hq : q ∈ lookups cwd (filePath u.text f.text)) (other : Bytes) :
      ¬ other :: target cwd u.text f.text <:+ q := by
    intro hs
    refine hpassed ⟨q, hq, (List.suffix_cons _ _).trans hs, ?_⟩
    rintro rfl
    exact absurd hs.length_le (by simp)
  have hchild (other : Bytes) : other :: target cwd u.text f.text ∉ g.dirs := by
    intro hmem
    rcases (Grove.mem_along.mp hmem).2 with hs | hl
    · exact hends _ (storage_mem_lookups u f) other hs
    · exact hends _ hl other (List.suffix_refl _)
  have htarget : target cwd u.text f.text ∈ lookups cwd (filePath u.text f.text) := by
    rw [← Fs.lookups_trimSlashes, lookups_name_last hlast, Fs.resolve_trimSlashes]
    exact List.mem_append_right _ (List.mem_singleton_self _)
  have hlocate {fs : Fs} (hdirs : ∀ q ∈ lookups cwd (filePath u.text f.text), fs.node q = some .dir) :
      fs.locate cwd (Fs.trimSlashes (filePath u.text f.text)) .einval = .ok (target cwd u.text f.text) := by
    refine Fs.locate_ok.mpr ⟨hlast, by rw [Fs.resolve_trimSlashes]; rfl, fun q hq => ?_⟩
    apply hdirs
    rw [← Fs.lookups_trimSlashes, lookups_name_last hlast]
    exact List.mem_append_left _ hq
  have hdirs := fun q (hq : q ∈ lookups cwd (filePath u.text f.text)) => Grove.dirs_bare (cwd_storage cwd) hq
  have hdirs' := fun q (hq : q ∈ lookups cwd (filePath u.text f.text)) =>
    Grove.dirs_planted (cwd_storage cwd) (hchild name) [] hq
  have hempty : g.bare.readdir (target cwd u.text f.text) = [] := by
    apply List.eq_nil_iff_forall_not_mem.mpr
    intro other hmem
    obtain ⟨n, hn⟩ := Fs.mem_readdir.mp hmem
    rw [Grove.node_bare, if_neg (hchild other)] at hn
    cases hn
  have hfull : (g.planted _ [] (hchild name)).readdir (target cwd u.text f.text) ≠ [] := by
    rw [Grove.readdir_planted]
    exact List.cons_ne_nil _ _
  have hremove : g.bare.remove cwd (filePath u.text f.text) = .ok (target cwd u.text f.text) := by
    rw [Fs.remove_dir (hlocate hdirs) (hdirs _ htarget), if_pos hempty]
  have hremove' : (g.planted _ [] (hchild name)).remove cwd (filePath u.text f.text) = .error .enotempty := by
    rw [Fs.remove_dir (hlocate hdirs') (hdirs' _ htarget), if_neg hfull]
  have hsame := h.same_response (twins_planted (hchild name) [] (.inr (Grove.mem_of_lookup _ htarget)) hforeign)
    .delete
  have hok := delete_ok (v := v) hremove
  rw [← hsame, delete_error hremove'] at hok
  exact absurd hok (by decide)

theorem listNames_extends (buffer : Bytes) (names : List Bytes) : buffer <+: listNames buffer names := by
  induction names generalizing buffer with
  | nil => exact List.prefix_refl _
  | cons name names ih =>
    simp only [listNames]
    split
    · exact ih buffer
    · split
      · exact List.prefix_refl _
      · refine List.IsPrefix.trans ?_ (ih _)
        rw [strncat, strncat, List.append_assoc]
        exact List.prefix_append _ _

/-- The first name that fits stands at the head of the listing. -/
theorem listData_head {c : UInt8} {name : Bytes} {names : List Bytes} (hlong : 12 < (c :: name).length)
    (hfits : (c :: name).length < 100) : (listData ((c :: name) :: names)).head? = some c := by
  have hskipped : skipped (c :: name) = false := skipped_long hlong
  have hroom : ¬ (c :: name).length + 1 ≥ listBufferSize - ([] : Bytes).length - 1 := by
    simp only [listBufferSize, List.length_nil]
    omega
  have hhead : [c] <+: listData ((c :: name) :: names) := by
    rw [listData, strncat, listNames, hskipped, if_neg Bool.false_ne_true]
    simp only [hroom, if_false]
    refine List.IsPrefix.trans ?_ ((listNames_extends _ names).trans (List.prefix_append _ _))
    have htake : ∃ rest, (c :: name).take (listBufferSize - ([] : Bytes).length - 1) = c :: rest :=
      ⟨_, List.take_succ_cons⟩
    obtain ⟨rest, hrest⟩ := htake
    rw [strncat, strncat, hrest]
    simp
  obtain ⟨rest, hrest⟩ := hhead
  rw [← hrest]
  rfl

theorem list_ok {fs : Fs} {names : List Bytes} (h : fs.opendir cwd (userPath u.text) = .ok names) :
    (workerWorker cwd quietCalls ⟨fs, bothUsers u v⟩ (FileCommand.list.task 1 u f)).2.data = listData names := by
  have hexists : userExists quietCalls.userQuery (bothUsers u v).tables u.text = true := by
    rw [userExists, (bothUsers_registered u v).1]
    rfl
  have hopen : attempt quietCalls.opendir (fs.opendir cwd (userPath u.text)) = .ok names :=
    attempt_ok.mpr ⟨rfl, h⟩
  have hall : names.take (quietCalls.readdir.getD names.length) = names := List.take_length
  change (taskList cwd quietCalls ⟨fs, bothUsers u v⟩ (FileCommand.list.task 1 u f)).data = _
  simp only [taskList, FileCommand.task, hexists, hopen, hall]
  rfl

/-- There is a length that no name in a directory along the path of a user has. -/
theorem exists_fresh_length (cwd : Path) (u : Username) (p : Path) : ∃ n, 63 < n ∧ n < 100 ∧
    ∀ name : Bytes, name.length = n →
      name :: p ∉ (Grove.along (storageDir cwd) cwd (cwd_storage cwd) (userPath u.text)).dirs := by
  have hlookup (name : Bytes) (hn : 63 < name.length) : name :: p ∉ lookups cwd (userPath u.text) := by
    intro hmem
    obtain ⟨component, hc, parent, heq⟩ := lookups_name hmem
    rw [← (List.cons.inj heq).1, userPath_eq u.length_le] at hc
    rcases List.mem_cons.mp hc with rfl | hc
    · exact absurd hn (by decide)
    · have hle := components_length_le hc
      have hu := u.length_le
      omega
  -- At most one name leads on to the working directory.
  by_cases hchain : ∃ name : Bytes, name.length = 64 ∧ name :: p <:+ storageDir cwd
  · obtain ⟨first, hfirst, hs⟩ := hchain
    refine ⟨65, by decide, by decide, fun name hn hmem => ?_⟩
    rcases (Grove.mem_along.mp hmem).2 with hs' | hl
    · have heq := List.suffix_of_suffix_length_le hs' hs (by simp)
      have hsame := (List.cons.inj (heq.eq_of_length (by simp))).1
      rw [← hsame, hn] at hfirst
      cases hfirst
    · exact hlookup name (by omega) hl
  · refine ⟨64, by decide, by decide, fun name hn hmem => ?_⟩
    rcases (Grove.mem_along.mp hmem).2 with hs | hl
    · exact hchain ⟨name, hn, hs⟩
    · exact hlookup name (by omega) hl

/-- A user below the directory of `v`: `LIST` shows what is in there. -/
theorem Isolated.apart (h : Isolated cwd u v f) : ¬ homeDir cwd v <:+ homeDir cwd u := by
  intro hbelow
  obtain ⟨n, hlong, hshort, hfresh⟩ := exists_fresh_length cwd u (homeDir cwd u)
  let g := Grove.along (storageDir cwd) cwd (cwd_storage cwd) (userPath u.text)
  have hforeign (name : Bytes) : foreign cwd u v (name :: homeDir cwd u) = true := by
    by_contra hown
    have hsame := (foreign_eq_false.mp (Bool.not_eq_true _ ▸ hown)).2 (hbelow.trans (List.suffix_cons _ _))
    have hlen := hbelow.length_le
    rw [← hsame] at hlen
    simp at hlen
  -- A file with this byte as its name, `n` times, is the first that is listed.
  have hlisted (c : UInt8) :
      (workerWorker cwd quietCalls ⟨g.bare, bothUsers u v⟩ (FileCommand.list.task 1 u f)).2.data.head? =
        some c := by
    obtain ⟨m, rfl⟩ : ∃ m, n = m + 1 := Nat.exists_eq_add_one_of_ne_zero (by omega)
    have hnew := hfresh (c :: List.replicate m c) (by simp)
    have hopen : (g.planted _ [] hnew).opendir cwd (userPath u.text) =
        .ok ((c :: List.replicate m c) :: g.bare.readdir (homeDir cwd u)) := by
      rw [Fs.opendir, Fs.walk_ok.mpr ⟨rfl, fun _ hq => Grove.dirs_planted (cwd_storage cwd) hnew [] hq⟩]
      exact congrArg Except.ok (Grove.readdir_planted hnew [])
    have hsame := h.same_response
      (twins_planted hnew [] (Grove.resolve_along (cwd_storage cwd) (userPath u.text)) (hforeign _)) .list
    rw [← hsame, list_ok hopen]
    exact listData_head (by simp; omega) (by simp; omega)
  have hx := (hlisted 120).symm.trans (hlisted 121)
  exact absurd hx (by decide)

/-- The names that isolate the user are exactly the confined ones. -/
theorem isolated_iff (cwd : Path) (u v : Username) (f : Filename) :
    Isolated cwd u v f ↔ Confined cwd u v f :=
  ⟨fun h => ⟨h.apart, h.own, h.last⟩, isolated_of_confined⟩

theorem homeDir_plain (hu : isPlain u.text = true) : homeDir cwd u = u.text :: storageDir cwd := by
  have hname : isName (ascii "storage") = true := by decide
  rw [homeDir, userPath_eq u.length_le, components_plain hu, ← List.singleton_append, resolve_append,
    resolve_name hname, resolve_name (isName_of_isPlain hu)]
  rfl

/-- Plain names of two users are confined. -/
theorem confined_plain (hu : isPlain u.text = true) (hv : isPlain v.text = true)
    (hf : isPlain f.text = true) (hne : u.text ≠ v.text) : Confined cwd u v f := by
  have hname : isName (ascii "storage") = true := by decide
  have htarget := target_plain cwd u.length_le f.length_le hu hf
  have hapart : ¬ homeDir cwd v <:+ homeDir cwd u := by
    rw [homeDir_plain hu, homeDir_plain hv]
    intro hs
    exact hne (List.cons.inj (hs.eq_of_length rfl)).1.symm
  have hbelow : ¬ homeDir cwd v <:+ target cwd u.text f.text := by
    rw [htarget, ← homeDir_plain hu]
    intro hs
    rcases List.suffix_cons_iff.mp hs with heq | hs
    · rw [homeDir_plain hv, homeDir_plain hu] at heq
      exact absurd (congrArg List.length heq) (by simp)
    · exact hapart hs
  have hunder : homeDir cwd u <:+ target cwd u.text f.text := by
    rw [htarget, homeDir_plain hu]
    exact List.suffix_cons _ _
  refine ⟨hapart, fun p hp => ?_, fun _ => .inr ⟨hunder, hbelow⟩⟩
  rw [filePath_eq u.length_le f.length_le, components_plain hu, components_plain hf] at hp
  simp only [List.singleton_append, lookups, hname, isName_of_isPlain hu, isName_of_isPlain hf, if_true,
    List.mem_cons, List.not_mem_nil, or_false] at hp
  rcases hp with rfl | rfl | rfl
  · exact .inl (List.suffix_refl _)
  · right
    change foreign cwd u v (u.text :: storageDir cwd) = false
    rw [← homeDir_plain hu]
    exact foreign_eq_false.mpr ⟨List.suffix_refl _, fun hs => absurd hs hapart⟩
  · right
    change foreign cwd u v (f.text :: u.text :: storageDir cwd) = false
    rw [← htarget]
    exact foreign_eq_false.mpr ⟨hunder, fun hs => absurd hs hbelow⟩

end

def bobsReport : Filename := ⟨ascii "../bob/report", by decide, by decide, by decide +kernel, by decide⟩

/-- The directories of alice and bob, and a report of bob's. -/
def sharedServer : Server where
  fs := ⟨[([ascii "storage"], .dir), ([ascii "alice", ascii "storage"], .dir),
    ([ascii "bob", ascii "storage"], .dir),
    ([ascii "report", ascii "bob", ascii "storage"], .file (ascii "secret"))], by decide⟩
  db := ⟨accounts, none⟩

/-- A session of alice downloads the report of bob. -/
theorem download_of_foreign_report :
    (workerWorker [] .succeeding sharedServer (FileCommand.download.task 1 nameAlice bobsReport)).2 =
      ⟨.success, ascii "\nDOWNLOAD OK\n", ascii "secret"⟩ ∧
    ¬ Isolated [] nameAlice nameBob bobsReport := by
  refine ⟨by decide +kernel, fun h => ?_⟩
  rcases h.own (ascii "bob" :: storageDir []) (by decide +kernel) with hs | hown
  · exact absurd hs (by decide)
  · exact absurd hown (by decide +kernel)

end Stash.Threads
