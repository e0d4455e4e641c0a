import Stash.Foundation.FileViews
import Stash.Threads.DiskAgreement

/-! Two runs of one command of a user, on servers that differ only in files that are not the
user's: which names keep the command from telling them apart. -/
namespace Stash.Threads
open Foundation.CText Foundation.Scanf Foundation.Paths Foundation.FileTree Auth

inductive FileCommand where
  | upload (payload : Payload)
  | download
  | delete
  | list

/-- The task that the session of a user queues for a command. -/
def FileCommand.task (command : FileCommand) (sessionId : UInt64) (u : Username) (f : Filename) : Task :=
  match command with
  | .upload payload => ⟨.upload, sessionId, u.text, f.text, UInt64.ofNat payload.bytes.length, some payload.bytes⟩
  | .download => ⟨.download, sessionId, u.text, f.text, 0, none⟩
  | .delete => ⟨.delete, sessionId, u.text, f.text, 0, none⟩
  | .list => ⟨.list, sessionId, u.text, [], 0, none⟩

/-- The directory of a user. -/
def homeDir (cwd : Path) (u : Username) : Path := resolve cwd (userPath u.text)

/-- What is none of the business of `u`: everything outside its directory, and everything below
the directory of `v`. -/
def foreign (cwd : Path) (u v : Username) (p : Path) : Bool :=
  !(homeDir cwd u).isSuffixOf p || ((homeDir cwd v).isSuffixOf p && p != homeDir cwd v)

/-- Two file systems with a storage directory that differ only in hidden files. -/
structure Twins (cwd : Path) (hidden : Path → Bool) (fs fs' : Fs) : Prop where
  tree : fs.Tree cwd
  tree' : fs'.Tree cwd
  storage : fs.node (storageDir cwd) = some .dir
  view : fs.view hidden = fs'.view hidden

/-- Two results that cannot be told apart, the first of which leaves the hidden files of `fs`. -/
structure Alike (hidden : Path → Bool) (fs : Fs) (r r' : Server × Response) : Prop where
  response : r.2 = r'.2
  view : r.1.fs.view hidden = r'.1.fs.view hidden
  untouched : ∀ p content, hidden p = true →
    (r.1.fs.node p = some (.file content) ↔ fs.node p = some (.file content))

/-- No command of `u` on the filename tells servers apart that differ only in files foreign to
it, and none changes such a file. -/
def Isolated (cwd : Path) (u v : Username) (f : Filename) : Prop :=
  ∀ (s s' : Server), Twins cwd (foreign cwd u v) s.fs s'.fs → s.db = s'.db →
    (s.db.tables.userId u.text).isSome → (s.db.tables.userId v.text).isSome →
    ∀ (sessionId : UInt64) (calls : Calls) (command : FileCommand),
      Alike (foreign cwd u v) s.fs (workerWorker cwd calls s (command.task sessionId u f))
        (workerWorker cwd calls s' (command.task sessionId u f))

/-- Everything that is looked up on the way to the file is the user's own or a directory above
the users; the directory of `v` is not above that of `u`; and where the path ends, either an
entry was passed through on the way or all entries are the user's own. -/
structure Confined (cwd : Path) (u v : Username) (f : Filename) : Prop where
  apart : ¬ homeDir cwd v <:+ homeDir cwd u
  own : ∀ p ∈ lookups cwd (filePath u.text f.text), p <:+ storageDir cwd ∨ foreign cwd u v p = false
  last : isName ((Fs.trimSlashes (filePath u.text f.text)).getLastD []) = true →
    (∃ p ∈ lookups cwd (filePath u.text f.text),
      target cwd u.text f.text <:+ p ∧ p ≠ target cwd u.text f.text) ∨
    (homeDir cwd u <:+ target cwd u.text f.text ∧ ¬ homeDir cwd v <:+ target cwd u.text f.text)

section
variable {cwd : Path} {u v : Username} {f : Filename} {fs fs' : Fs} {calls : Calls}

theorem foreign_eq_false {p : Path} : foreign cwd u v p = false ↔
    homeDir cwd u <:+ p ∧ (homeDir cwd v <:+ p → p = homeDir cwd v) := by
  simp only [foreign, Bool.or_eq_false_iff, Bool.not_eq_false', List.isSuffixOf_iff_suffix,
    Bool.and_eq_false_iff, bne_eq_false_iff_eq]
  apply and_congr_right
  intro _
  rw [← List.isSuffixOf_iff_suffix]
  cases (homeDir cwd v).isSuffixOf p with
  | true => simp
  | false => simp

/-- Entries directly below a place that is the user's own are the user's own. -/
theorem foreign_below {p : Path} (hu : homeDir cwd u <:+ p) (hv : ¬ homeDir cwd v <:+ p) (name : Bytes) :
    foreign cwd u v (name :: p) = false := by
  refine foreign_eq_false.mpr ⟨hu.trans (List.suffix_cons name p), fun h => ?_⟩
  exact ((List.suffix_cons_iff.mp h).resolve_right hv).symm

/-- The path of the user's directory is the beginning of that of the file. -/
theorem filePath_userPath (u : Username) (f : Filename) :
    filePath u.text f.text = userPath u.text ++ components f.text := by
  rw [filePath_eq u.length_le f.length_le, userPath_eq u.length_le, List.cons_append]

theorem Twins.above {hidden : Path → Bool} (h : Twins cwd hidden fs fs') {p : Path}
    (hp : p <:+ storageDir cwd) : fs.HasDir p := by
  rcases List.suffix_cons_iff.mp hp with rfl | hs
  · exact .inr h.storage
  · exact h.tree.above p hs

/-- A confined path is looked up with the same results in both. -/
theorem Twins.known (h : Twins cwd (foreign cwd u v) fs fs') {p : Path}
    (hp : p <:+ storageDir cwd ∨ foreign cwd u v p = false) : fs.node p = fs'.node p := by
  rcases hp with hs | hown
  · rcases h.above hs with rfl | hdir
    · rw [h.tree.root, h.tree'.root]
    · rw [hdir, (Fs.dir_of_view h.view).mp hdir]
  · exact Fs.node_of_view h.view hown

theorem Twins.sameLookups (h : Twins cwd (foreign cwd u v) fs fs') (hc : Confined cwd u v f) :
    Fs.SameLookups fs fs' cwd (filePath u.text f.text) := fun p hp => h.known (hc.own p hp)

theorem Twins.sameUserLookups (h : Twins cwd (foreign cwd u v) fs fs') (hc : Confined cwd u v f) :
    Fs.SameLookups fs fs' cwd (userPath u.text) := by
  intro p hp
  apply h.sameLookups hc
  rw [filePath_userPath, lookups_append]
  exact List.mem_append_left _ hp

/-- The directories that the worker makes first leave twins. -/
theorem Twins.entered (calls : Calls) (h : Twins cwd (foreign cwd u v) fs fs') (hc : Confined cwd u v f) :
    Twins cwd (foreign cwd u v) (makeDirs cwd calls u.text fs) (makeDirs cwd calls u.text fs') ∧
      ∀ p, foreign cwd u v p = true → (makeDirs cwd calls u.text fs).node p = fs.node p := by
  rw [makeDirs_storage h.storage, makeDirs_storage ((Fs.dir_of_view h.view).mp h.storage), makeDir,
    makeDir, ← (h.sameUserLookups hc).mkdir]
  split
  · rename_i p hmk
    obtain ⟨_, hmk⟩ := attempt_ok.mp hmk
    have hmk' := hmk
    rw [(h.sameUserLookups hc).mkdir] at hmk'
    obtain ⟨hlocate, hnone⟩ := Fs.mkdir_ok hmk
    obtain ⟨hlast, hp, _⟩ := Fs.locate_ok.mp hlocate
    -- The new directory was looked up, and it is not there, so it is the user's own.
    have hlooked : p ∈ lookups cwd (filePath u.text f.text) := by
      rw [filePath_userPath, lookups_append, ← Fs.lookups_trimSlashes, lookups_name_last hlast, ← hp]
      simp
    have hown : foreign cwd u v p = false := by
      refine (hc.own p hlooked).resolve_left fun hs => ?_
      rcases h.above hs with rfl | hdir
      · obtain ⟨name, parent, hcons, _⟩ := h.tree.located hlocate
        cases hcons
      · rw [hnone] at hdir
        cases hdir
    refine ⟨⟨h.tree.mkdir hmk, h.tree'.mkdir hmk', ?_, ?_⟩, fun q hq => ?_⟩
    · rw [Fs.node_insert]
      split
      · rfl
      · exact h.storage
    · rw [Fs.view_insert hown, Fs.view_insert hown, h.view]
    · rw [Fs.node_insert, if_neg]
      rintro rfl
      rw [hown] at hq
      cases hq
  · exact ⟨h, fun _ _ => rfl⟩

section
variable (s s' : Server) {task : Task}

variable {s s'} in
theorem acquire_db (hdb : s.db = s'.db) (command : String) :
    acquire calls s task command = acquire calls s' task command := by
  rw [acquire, acquire, hdb]

/-- What a path of the user locates is the user's own, or a directory. -/
theorem Twins.own (h : Twins cwd (foreign cwd u v) fs fs') (hc : Confined cwd u v f) {parts : List Bytes}
    {special : Errno} {p : Path} (hl : fs.locate cwd parts special = .ok p)
    (hparts : lookups cwd parts ⊆ lookups cwd (filePath u.text f.text)) (hp : fs.node p ≠ some .dir) :
    foreign cwd u v p = false := by
  obtain ⟨hlast, hresolve, _⟩ := Fs.locate_ok.mp hl
  have hlooked : p ∈ lookups cwd parts := by
    rw [lookups_name_last hlast, ← hresolve]
    simp
  refine (hc.own p (hparts hlooked)).resolve_left fun hs => ?_
  rcases h.above hs with rfl | hdir
  · obtain ⟨name, parent, hcons, _⟩ := h.tree.located hl
    cases hcons
  · exact hp hdir

/-- An upload writes what is the user's own, or nothing. -/
theorem Twins.upload (h : Twins cwd (foreign cwd u v) s.fs s'.fs) (hc : Confined cwd u v f)
    (hdb : s.db = s'.db) (hname : task.username = u.text) (hfile : task.filename = f.text) :
    Alike (foreign cwd u v) s.fs (taskUpload cwd calls s task) (taskUpload cwd calls s' task) := by
  have hopen : openUpload cwd calls s' task = openUpload cwd calls s task := by
    rw [openUpload, openUpload, acquire_db hdb, hname, hfile, (h.sameLookups hc).openWrite]
  rw [taskUpload, taskUpload, hopen]
  cases ho : openUpload cwd calls s task with
  | error response => exact ⟨rfl, h.view, fun _ _ _ => Iff.rfl⟩
  | ok file =>
    have ho' := ho
    rw [← hopen] at ho'
    obtain ⟨_, _, hwrite⟩ := openUpload_ok.mp ho
    obtain ⟨_, _, hwrite'⟩ := openUpload_ok.mp ho'
    obtain ⟨hlocate, hnotdir⟩ := Fs.openWrite_ok.mp hwrite
    have hown : foreign cwd u v file = false := by
      rw [hname, hfile] at hlocate
      exact h.own hc hlocate (List.Subset.refl _) hnotdir
    have hother (p : Path) (hp : foreign cwd u v p = true) : p ≠ file := by
      rintro rfl
      rw [hown] at hp
      cases hp
    simp only [writeUpload]
    cases calls.wrote task.payload with
    | true =>
      refine ⟨rfl, ?_, fun p content hp => ?_⟩
      · simp only [if_true, Server.setDb_fs, Server.setFs_fs]
        rw [Fs.view_insert hown, Fs.view_insert hown, h.view]
      · simp only [if_true, Server.setDb_fs, Server.setFs_fs]
        rw [Fs.node_insert, if_neg (hother p hp)]
    | false =>
      simp only [Bool.false_eq_true, if_false, removeFile_written hwrite, removeFile_written hwrite']
      cases calls.remove with
      | none =>
        refine ⟨rfl, ?_, fun p content hp => ?_⟩
        · simp only [if_true, Server.setFs_fs]
          rw [Fs.view_erase, Fs.view_erase, Fs.view_insert hown, Fs.view_insert hown, h.view]
        · simp only [if_true, Server.setFs_fs]
          rw [Fs.node_erase, if_neg (hother p hp), Fs.node_insert, if_neg (hother p hp)]
      | some e =>
        refine ⟨rfl, ?_, fun p content hp => ?_⟩
        · simp only [reduceCtorEq, if_false, Server.setFs_fs]
          rw [Fs.view_insert hown, Fs.view_insert hown, h.view]
        · simp only [reduceCtorEq, if_false, Server.setFs_fs]
          rw [Fs.node_insert, if_neg (hother p hp)]

theorem Twins.download (h : Twins cwd (foreign cwd u v) s.fs s'.fs) (hc : Confined cwd u v f)
    (hdb : s.db = s'.db) (hname : task.username = u.text) (hfile : task.filename = f.text) :
    Alike (foreign cwd u v) s.fs (s, taskDownload cwd calls s task) (s', taskDownload cwd calls s' task) := by
  refine ⟨?_, h.view, fun _ _ _ => Iff.rfl⟩
  simp only [taskDownload, openDownload, acquire_db hdb, hname, hfile, (h.sameLookups hc).openRead]

/-- An empty directory that a delete finds is empty in both. -/
theorem Twins.empty (h : Twins cwd (foreign cwd u v) s.fs s'.fs) (hc : Confined cwd u v f) {p : Path}
    (hl : s.fs.locate cwd (Fs.trimSlashes (filePath u.text f.text)) .einval = .ok p) :
    s.fs.readdir p = [] ↔ s'.fs.readdir p = [] := by
  obtain ⟨hlast, hresolve, hdirs⟩ := Fs.locate_ok.mp hl
  have hp : p = target cwd u.text f.text := by
    rw [hresolve, Fs.resolve_trimSlashes]
    rfl
  rcases hc.last hlast with ⟨q, hq, habove, hne⟩ | ⟨hu, hv⟩
  · -- The path went through an entry below its end, so there is one in both.
    rw [← Fs.lookups_trimSlashes, lookups_name_last hlast, Fs.resolve_trimSlashes, List.mem_append,
      List.mem_singleton] at hq
    have hqdir := hdirs q (hq.resolve_right hne)
    have hentry {fs : Fs} (ht : fs.Tree cwd) (hqdir : fs.node q = some .dir) : fs.readdir p ≠ [] := by
      rw [hp]
      obtain ⟨name, hsome⟩ := ht.has_entry (by rw [hqdir]; rfl) habove (Ne.symm hne)
      exact List.ne_nil_of_mem (Fs.mem_readdir.mpr (Option.isSome_iff_exists.mp hsome))
    exact iff_of_false (hentry h.tree hqdir) (hentry h.tree' ((Fs.dir_of_view h.view).mp hqdir))
  · rw [hp, Fs.readdir_of_view h.view (foreign_below hu hv)]

theorem Twins.delete (h : Twins cwd (foreign cwd u v) s.fs s'.fs) (hc : Confined cwd u v f)
    (hdb : s.db = s'.db) (hname : task.username = u.text) (hfile : task.filename = f.text) :
    Alike (foreign cwd u v) s.fs (taskDelete cwd calls s task) (taskDelete cwd calls s' task) := by
  have hremove : removeDelete cwd calls s' task = removeDelete cwd calls s task := by
    rw [removeDelete, removeDelete, acquire_db hdb, hname, hfile,
      (h.sameLookups hc).remove fun p hl _ => h.empty s s' hc hl]
  rw [taskDelete, taskDelete, hremove]
  cases ho : removeDelete cwd calls s task with
  | error response => exact ⟨rfl, h.view, fun _ _ _ => Iff.rfl⟩
  | ok file =>
    refine ⟨rfl, ?_, fun p content hp => ?_⟩
    · simp only [Server.setDb_fs, Server.setFs_fs]
      rw [Fs.view_erase, Fs.view_erase, h.view]
    · simp only [Server.setDb_fs, Server.setFs_fs]
      rw [Fs.node_erase]
      split
      · rename_i heq
        subst heq
        obtain ⟨_, _, hremoved⟩ := removeDelete_ok.mp ho
        rw [hname, hfile] at hremoved
        simp only [reduceCtorEq, false_iff]
        intro hnode
        -- A file that is removed is the user's own.
        have hown := h.own hc (Fs.remove_ok hremoved).1 (by rw [Fs.lookups_trimSlashes]; exact List.Subset.refl _)
          (by rw [hnode]; simp)
        rw [hown] at hp
        cases hp
      · rfl

theorem Twins.list (h : Twins cwd (foreign cwd u v) s.fs s'.fs) (hc : Confined cwd u v f)
    (hdb : s.db = s'.db) (hname : task.username = u.text) :
    Alike (foreign cwd u v) s.fs (s, taskList cwd calls s task) (s', taskList cwd calls s' task) := by
  refine ⟨?_, h.view, fun _ _ _ => Iff.rfl⟩
  have hopen : s.fs.opendir cwd (userPath u.text) = s'.fs.opendir cwd (userPath u.text) := by
    rw [Fs.opendir, Fs.opendir, ← Fs.walk_congr (h.sameUserLookups hc)]
    cases hw : s.fs.walk cwd (userPath u.text) with
    | error e => rfl
    | ok dir =>
      obtain rfl : dir = homeDir cwd u := (Fs.walk_ok.mp hw).1
      simp only [Except.map]
      rw [Fs.readdir_of_view h.view (foreign_below (List.suffix_refl _) hc.apart)]
  simp only [taskList, hdb, hname, hopen]

end

/-- Names that are confined isolate the user. -/
theorem isolated_of_confined (hc : Confined cwd u v f) : Isolated cwd u v f := by
  intro s s' h hdb _ _ sessionId calls command
  obtain ⟨hentered, hkept⟩ := h.entered calls hc
  have hafter {r r' : Server × Response}
      (hr : Alike (foreign cwd u v) (makeDirs cwd calls u.text s.fs) r r') :
      Alike (foreign cwd u v) s.fs r r' := by
    refine ⟨hr.response, hr.view, fun p content hp => ?_⟩
    rw [hr.untouched p content hp, hkept p hp]
  apply hafter
  cases command with
  | upload payload =>
    exact Twins.upload (s.setFs _) (s'.setFs _) hentered hc hdb rfl rfl
  | download =>
    exact Twins.download (s.setFs _) (s'.setFs _) hentered hc hdb rfl rfl
  | delete =>
    exact Twins.delete (s.setFs _) (s'.setFs _) hentered hc hdb rfl rfl
  | list =>
    exact Twins.list (s.setFs _) (s'.setFs _) hentered hc hdb rfl

end

end Stash.Threads
