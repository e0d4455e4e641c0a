import Stash.Auth.FileRows
import Stash.Foundation.Runs
import Stash.Threads.Naming

/-! The files on the disk against the rows of the database, over runs of uploads and deletes
that are executed one at a time, however their calls end. -/
namespace Stash.Threads
open Foundation.CText Foundation.Scanf Foundation.Paths Foundation.FileTree Foundation.Runs Auth

/-- A buffer that `malloc` can have returned. -/
structure Payload where
  bytes : Bytes
  length_lt : bytes.length < 2 ^ 63

inductive Work where
  | upload (payload : Payload)
  | delete

/-- An upload or delete in the queue, with the names that the parsers let through. -/
structure Job where
  sessionId : UInt64
  username : Username
  filename : Filename
  work : Work

def Job.task (job : Job) : Task :=
  match job.work with
  | .upload payload => ⟨.upload, job.sessionId, job.username.text, job.filename.text,
      UInt64.ofNat payload.bytes.length, some payload.bytes⟩
  | .delete => ⟨.delete, job.sessionId, job.username.text, job.filename.text, 0, none⟩

/-- One task from the queue to its response. -/
def execute (cwd : Path) (s : Server) (a : Job × Calls) : Option Server :=
  some (workerWorker cwd a.2 s a.1.task).1

/-- The server behind `mkdir`. -/
def entered (cwd : Path) (s : Server) (job : Job) (calls : Calls) : Server :=
  s.setFs (makeDirs cwd calls job.username.text s.fs)

/-- The file that the job opens for writing, or the entry that it removes. -/
def touched (cwd : Path) (s : Server) (job : Job) (calls : Calls) : Option Path :=
  match job.work with
  | .upload _ => (openUpload cwd calls (entered cwd s job calls) job.task).toOption
  | .delete => (removeDelete cwd calls (entered cwd s job calls) job.task).toOption

/-- A `DELETE` whose calls succeed is answered with success, removes the row and gives back
its bytes. -/
def Reclaims (cwd : Path) (s : Server) (u : Username) (f : Filename) (size : Nat) : Prop :=
  ∀ sessionId, ∃ before bytes,
    (workerWorker cwd .succeeding s (Job.task ⟨sessionId, u, f, .delete⟩)).2.status = .success ∧
    (workerWorker cwd .succeeding s (Job.task ⟨sessionId, u, f, .delete⟩)).1.db.tables.fileSize
      u.text f.text = none ∧
    (workerWorker cwd .succeeding s (Job.task ⟨sessionId, u, f, .delete⟩)).1.db.tables.quotaUsed
      u.text = some bytes ∧
    s.db.tables.quotaUsed u.text = some before ∧ bytes + size = before

/-- The directory of the files of a user. -/
def userDir (cwd : Path) (username : Bytes) : Path := resolve (storageDir cwd) (components username)

/-- A username whose parts between slashes are all entries of directories. -/
def isProper (username : Bytes) : Bool := (components username).all isName

/-- A username that is proper, or that somebody has. -/
def Known (s : Server) (username : Bytes) : Prop :=
  isProper username = true ∨ (s.db.tables.userId username).isSome

/-- The disk and the database agree: a row has its file, whatever its names, and a file that a
known user has under a plain name has its row; the quota of a user is what its files take, and can
be reclaimed. -/
structure Agree (cwd : Path) (s : Server) : Prop where
  row_iff_file : ∀ (u : Username) (f : Filename), Known s u.text → isPlain f.text = true →
    s.db.tables.fileSize u.text f.text = s.fs.fileSize (target cwd u.text f.text)
  row_file : ∀ (u : Username) (f : Filename) (size : Nat), s.db.tables.fileSize u.text f.text = some size →
    s.fs.fileSize (target cwd u.text f.text) = some size
  quota : ∀ (u : Username) (bytes : Nat), s.db.tables.quotaUsed u.text = some bytes →
    bytes = s.fs.bytesIn (userDir cwd u.text)
  reclaim : ∀ (u : Username) (f : Filename) (size : Nat), s.db.tables.fileSize u.text f.text = some size →
    Reclaims cwd s u f size

/-- The files are a tree, no transaction is open, the tables are sound, the rows of every known
user are the files in its directory, and no row has another spelling of its names. -/
structure Consistent (cwd : Path) (s : Server) : Prop where
  tree : s.fs.Tree cwd
  sound : s.db.Sound
  rows : ∀ username filename, Known s username →
    s.db.tables.fileSize username filename = s.fs.fileSize (filename :: userDir cwd username)
  spelled : ∀ username filename, (s.db.tables.fileSize username filename).isSome →
    isProper username = true ∧ isPlain filename = true

/-- The calls behind the opened file end so that disk and row change alike; `row` is the size
that the row has before. -/
def EndsAlike (calls : Calls) (row : Option Nat) : Work → Prop
  | .upload payload =>
    if calls.wrote payload.bytes then
      if calls.metadata = .none then (calls.stored payload.bytes).length = payload.bytes.length
      else row = some (calls.stored payload.bytes).length
    else if calls.remove = none then row = none
    else row = some (calls.stored payload.bytes).length
  | .delete => calls.metadata = .none

/-- No other user has the same directory under another spelling. -/
def OwnDir (cwd : Path) (s : Server) (username : Bytes) : Prop :=
  ∀ other, (s.db.tables.userId other).isSome → userDir cwd other = userDir cwd username → other = username

/-- A step that opens or removes nothing; or that works on a plain name of a user with a directory
of its own and ends alike; or that removes a directory. -/
def Harmless (cwd : Path) (s : Server) (a : Job × Calls) : Prop :=
  ∀ file, touched cwd s a.1 a.2 = some file →
    (isProper a.1.username.text = true ∧ isPlain a.1.filename.text = true ∧ OwnDir cwd s a.1.username.text ∧
      EndsAlike a.2 (s.db.tables.fileSize a.1.username.text a.1.filename.text) a.1.work) ∨
    (s.fs.fileSize file = none ∧ s.db.tables.fileSize a.1.username.text a.1.filename.text = none ∧
      a.1.work = .delete)

theorem userDir_proper (cwd : Path) {username : Bytes} (h : isProper username = true) :
    userDir cwd username = (components username).reverse ++ storageDir cwd :=
  resolve_names (List.all_eq_true.mp h)

/-- Proper usernames have directories of their own. -/
theorem userDir_inj {cwd : Path} {u v : Bytes} (hu : isProper u = true) (hv : isProper v = true)
    (h : userDir cwd u = userDir cwd v) : u = v := by
  rw [userDir_proper cwd hu, userDir_proper cwd hv] at h
  exact components_injective (List.reverse_injective (List.append_cancel_right h))

theorem isProper_of_isPlain {username : Bytes} (h : isPlain username = true) : isProper username = true := by
  rw [isProper, components_plain h, List.all_cons, isName_of_isPlain h]
  rfl

theorem target_userDir (cwd : Path) {u : Username} {f : Filename} (hf : isPlain f.text = true) :
    target cwd u.text f.text = f.text :: userDir cwd u.text := by
  rw [target_eq cwd u.length_le f.length_le, components_plain hf, resolve_append, resolve_name (isName_of_isPlain hf)]
  rfl

theorem OwnDir.eq_iff {cwd : Path} {s : Server} {u v : Bytes} (h : OwnDir cwd s u) (hu : isProper u = true)
    (hv : Known s v) : userDir cwd v = userDir cwd u ↔ v = u := by
  refine ⟨fun hsame => ?_, fun hsame => by rw [hsame]⟩
  rcases hv with hproper | hregistered
  · exact userDir_inj hproper hu hsame
  · exact h v hregistered hsame

theorem fileSize_makeDir (fault : Option Errno) (cwd : Path) (path : List Bytes) (fs : Fs) (p : Path) :
    (makeDir fault cwd path fs).fileSize p = fs.fileSize p := by
  unfold makeDir attempt
  split
  · rename_i dir hmk
    split at hmk
    · cases hmk
    · apply Fs.fileSize_insert_dir
      rw [Fs.fileSize, (Fs.mkdir_ok hmk).2]
  · rfl

theorem fileSize_makeDirs (cwd : Path) (calls : Calls) (username : Bytes) (fs : Fs) (p : Path) :
    (makeDirs cwd calls username fs).fileSize p = fs.fileSize p := by
  rw [makeDirs, fileSize_makeDir, fileSize_makeDir]

theorem Job.payload_upload {job : Job} {payload : Payload} (h : job.work = .upload payload) :
    job.task.payload = payload.bytes ∧ job.task.filesize.toNat = payload.bytes.length := by
  have hlt := payload.length_lt
  have hsize : (UInt64.ofNat payload.bytes.length).toNat = payload.bytes.length :=
    UInt64.toNat_ofNat_of_lt (lt_trans hlt (by decide))
  rw [Task.payload, Job.task, h]
  simp [hsize]

section
variable {cwd : Path} {s : Server} {job : Job} {calls : Calls} {file : Path}

theorem toOption_eq_some {ε α : Type} {x : Except ε α} {a : α} : x.toOption = some a ↔ x = .ok a := by
  cases x with
  | error e => simp [Except.toOption]
  | ok b => simp [Except.toOption]

theorem worker_untouched (h : touched cwd s job calls = none) :
    (workerWorker cwd calls s job.task).1 = entered cwd s job calls := by
  obtain ⟨sessionId, u, f, work⟩ := job
  cases work with
  | upload payload =>
    simp only [touched, Job.task, entered] at h
    simp only [Job.task, workerWorker, taskUpload]
    split
    · rfl
    · rename_i file ho
      rw [toOption_eq_some.mpr ho] at h
      cases h
  | delete =>
    simp only [touched, Job.task, entered] at h
    simp only [Job.task, workerWorker, taskDelete]
    split
    · rfl
    · rename_i file ho
      rw [toOption_eq_some.mpr ho] at h
      cases h

theorem worker_upload {payload : Payload} (h : touched cwd s job calls = some file)
    (hwork : job.work = .upload payload) :
    openUpload cwd calls (entered cwd s job calls) job.task = .ok file ∧
      (workerWorker cwd calls s job.task).1 =
        (writeUpload cwd calls (entered cwd s job calls) job.task file).1 := by
  obtain ⟨sessionId, u, f, work⟩ := job
  subst hwork
  have ho := toOption_eq_some.mp h
  refine ⟨ho, ?_⟩
  simp only [Job.task, entered] at ho
  simp only [Job.task, workerWorker, taskUpload, entered, ho]

theorem worker_delete (h : touched cwd s job calls = some file) (hwork : job.work = .delete) :
    removeDelete cwd calls (entered cwd s job calls) job.task = .ok file ∧
      workerWorker cwd calls s job.task =
        (((entered cwd s job calls).setFs ((entered cwd s job calls).fs.erase file)).setDb
          (dbRemoveFile calls.metadata s.db job.username.text job.filename.text).1,
        ⟨.success, ascii "DELETE OK\n", []⟩) := by
  obtain ⟨sessionId, u, f, work⟩ := job
  subst hwork
  have ho := toOption_eq_some.mp h
  refine ⟨ho, ?_⟩
  simp only [Job.task, entered] at ho
  simp only [Job.task, workerWorker, taskDelete, entered, ho, Server.setFs_db]

/-- The clean-up takes the file away exactly when `remove` succeeds. -/
theorem removeFile_written {t : Server} {task : Task} {content : Bytes}
    (ho : t.fs.openWrite cwd (filePath task.username task.filename) = .ok file) :
    removeFile cwd calls (t.setFs (t.fs.insert file (.file content))) task =
      if calls.remove = none then t.setFs ((t.fs.insert file (.file content)).erase file)
      else t.setFs (t.fs.insert file (.file content)) := by
  rw [removeFile, Server.setFs_fs, Fs.remove_written ho]
  cases calls.remove with
  | none => rfl
  | some e => rfl

/-- What is on the disk when the task of an upload is over. -/
def leftBytes (calls : Calls) (payload : Bytes) : Option Nat :=
  if calls.wrote payload || calls.remove.isSome then some (calls.stored payload).length else none

theorem writeUpload_spec (calls : Calls) {t : Server} {task : Task}
    (ho : t.fs.openWrite cwd (filePath task.username task.filename) = .ok file) :
    (∀ p, (writeUpload cwd calls t task file).1.fs.fileSize p =
      if p = file then leftBytes calls task.payload else t.fs.fileSize p) ∧
    (writeUpload cwd calls t task file).1.db =
      if calls.wrote task.payload then
        (dbAddOrUpdateFile calls.metadata t.db task.username task.filename task.filesize.toNat).1
      else t.db := by
  cases hw : calls.wrote task.payload with
  | true =>
    simp only [writeUpload, hw, leftBytes, if_true, Bool.true_or]
    exact ⟨fun p => Fs.fileSize_insert_file _, rfl⟩
  | false =>
    simp only [writeUpload, hw, leftBytes, Bool.false_eq_true, if_false, Bool.false_or,
      removeFile_written ho]
    cases hr : calls.remove with
    | none =>
      simp only [if_true, Option.isSome_none, Bool.false_eq_true, if_false]
      refine ⟨fun p => ?_, rfl⟩
      rw [Server.setFs_fs, Fs.fileSize_erase, Fs.fileSize_insert_file]
      split
      · rfl
      · rfl
    | some e =>
      simp only [reduceCtorEq, if_false, Option.isSome_some, if_true]
      exact ⟨fun p => Fs.fileSize_insert_file _, rfl⟩

theorem Job.task_names (job : Job) :
    job.task.username = job.username.text ∧ job.task.filename = job.filename.text := by
  unfold Job.task
  split
  · exact ⟨rfl, rfl⟩
  · exact ⟨rfl, rfl⟩

theorem entered_fileSize (p : Path) : (entered cwd s job calls).fs.fileSize p = s.fs.fileSize p :=
  fileSize_makeDirs cwd calls job.username.text s.fs p

theorem consistent_entered (h : Consistent cwd s) : Consistent cwd (entered cwd s job calls) where
  tree := tree_makeDirs h.tree
  sound := h.sound
  rows := by
    intro username filename hu
    rw [entered_fileSize]
    exact h.rows username filename hu
  spelled := h.spelled

/-- A touched file is where the names of the job lead. -/
theorem touched_target (h : touched cwd s job calls = some file) :
    file = target cwd job.username.text job.filename.text := by
  rw [target]
  obtain ⟨hname, hfile⟩ := job.task_names
  cases hwork : job.work with
  | upload payload =>
    obtain ⟨ho, _⟩ := worker_upload h hwork
    obtain ⟨_, _, hopen⟩ := openUpload_ok.mp ho
    rw [hname, hfile] at hopen
    exact (Fs.locate_ok.mp (Fs.openWrite_ok.mp hopen).1).2.1
  | delete =>
    obtain ⟨ho, _⟩ := worker_delete h hwork
    obtain ⟨_, _, hremove⟩ := removeDelete_ok.mp ho
    rw [hname, hfile] at hremove
    rw [(Fs.locate_ok.mp (Fs.remove_ok hremove).1).2.1, Fs.resolve_trimSlashes]

/-- The condition on the calls says exactly that the row ends as the file does. -/
theorem endsAlike_upload {row : Option Nat} {payload : Payload} :
    EndsAlike calls row (.upload payload) ↔
      (if calls.wrote payload.bytes = true ∧ calls.metadata = .none then some payload.bytes.length
        else row) = leftBytes calls payload.bytes := by
  simp only [EndsAlike, leftBytes]
  by_cases hw : calls.wrote payload.bytes = true
  · simp only [hw, if_true, true_and, Bool.true_or]
    by_cases hm : calls.metadata = .none
    · rw [if_pos hm, if_pos hm, Option.some.injEq, eq_comm]
    · rw [if_neg hm, if_neg hm]
  · simp only [hw, Bool.false_or]
    cases calls.remove with
    | none => simp
    | some e => simp

theorem removed_tree {fs : Fs} (ht : fs.Tree cwd) (u : Username) (f : Filename)
    (hr : fs.remove cwd (filePath u.text f.text) = .ok file) : (fs.erase file).Tree cwd := by
  rw [filePath_eq u.length_le f.length_le] at hr
  exact ht.removed (by decide) hr

theorem writeUpload_tree {t : Server} (ht : t.fs.Tree cwd)
    (ho : t.fs.openWrite cwd (filePath job.username.text job.filename.text) = .ok file) :
    (writeUpload cwd calls t job.task file).1.fs.Tree cwd := by
  obtain ⟨hname, hfile⟩ := job.task_names
  have hwritten := ht.openWrite ho (calls.stored job.task.payload)
  have hgone := removed_tree hwritten job.username job.filename (Fs.remove_written ho _)
  rw [← hname, ← hfile] at ho
  simp only [writeUpload]
  split
  · exact hwritten
  · simp only [removeFile_written ho]
    split
    · exact hgone
    · exact hwritten

/-- A worker registers nobody. -/
theorem worker_userId (h : s.db.saved = none) (username : Bytes) :
    (workerWorker cwd calls s job.task).1.db.tables.userId username = s.db.tables.userId username := by
  cases ht : touched cwd s job calls with
  | none =>
    rw [worker_untouched ht]
    rfl
  | some file =>
    cases hwork : job.work with
    | upload payload =>
      obtain ⟨ho, hrun⟩ := worker_upload ht hwork
      rw [hrun, (writeUpload_spec calls (openUpload_ok.mp ho).2.2).2]
      split
      · exact userId_dbAddOrUpdateFile _ h _ _ _ _
      · rfl
    | delete =>
      rw [(worker_delete ht hwork).2]
      exact userId_dbRemoveFile _ h _ _ _

/-- A file that changes with its row leaves the rows of all users their files. -/
theorem consistent_changed {t : Server} (h : Consistent cwd s) (htree : t.fs.Tree cwd) (hsound : t.db.Sound)
    (hids : ∀ username, t.db.tables.userId username = s.db.tables.userId username) {u f : Bytes}
    (hu : isProper u = true) (hf : isPlain f = true) (hown : OwnDir cwd s u) (row : Option Nat)
    (hrow : ∀ username filename, t.db.tables.fileSize username filename =
      if username = u ∧ filename = f then row else s.db.tables.fileSize username filename)
    (hfile : ∀ p, t.fs.fileSize p = if p = f :: userDir cwd u then row else s.fs.fileSize p) : Consistent cwd t where
  tree := htree
  sound := hsound
  rows username filename hknown := by
    have hbefore : Known s username := hknown.imp_right fun hsome => by rwa [← hids]
    have hkey : filename :: userDir cwd username = f :: userDir cwd u ↔ username = u ∧ filename = f := by
      rw [List.cons.injEq, hown.eq_iff hu hbefore, and_comm]
    simp only [hrow, hfile, hkey]
    split
    · rfl
    · exact h.rows username filename hbefore
  spelled username filename hsome := by
    rw [hrow] at hsome
    split at hsome
    · rename_i hkey
      obtain ⟨rfl, rfl⟩ := hkey
      exact ⟨hu, hf⟩
    · exact h.spelled username filename hsome

/-- The row of the file of an upload changes when its write and its transaction succeed, no other row ever. -/
theorem upload_rows (h : s.db.Sound) (ht : touched cwd s job calls = some file) {payload : Payload}
    (hwork : job.work = .upload payload) : (workerWorker cwd calls s job.task).1.db.Sound ∧
      ∀ username filename, (workerWorker cwd calls s job.task).1.db.tables.fileSize username filename =
        if (username = job.username.text ∧ filename = job.filename.text) ∧
            calls.wrote payload.bytes = true ∧ calls.metadata = .none then some payload.bytes.length
        else s.db.tables.fileSize username filename := by
  obtain ⟨ho, hrun⟩ := worker_upload ht hwork
  obtain ⟨hacquired, _, hopen⟩ := openUpload_ok.mp ho
  obtain ⟨hname, hfile⟩ := job.task_names
  obtain ⟨hpayload, hsize⟩ := Job.payload_upload hwork
  obtain ⟨_, hdb⟩ := writeUpload_spec calls hopen
  have howner := acquire_ok hacquired
  rw [hname] at howner
  rw [hpayload, hname, hfile, hsize] at hdb
  rw [hrun, hdb]
  cases calls.wrote payload.bytes with
  | false => exact ⟨h, fun username filename => by simp; rfl⟩
  | true =>
    obtain ⟨hsound, hrow⟩ := dbAddOrUpdateFile_sound calls.metadata h howner job.filename.text payload.bytes.length
    refine ⟨hsound, fun username filename => ?_⟩
    simp only [if_true, true_and]
    exact hrow username filename

theorem consistent_upload (h : Consistent cwd s) (hsafe : Harmless cwd s (job, calls))
    (ht : touched cwd s job calls = some file) {payload : Payload} (hwork : job.work = .upload payload) :
    Consistent cwd (workerWorker cwd calls s job.task).1 := by
  obtain ⟨ho, hrun⟩ := worker_upload ht hwork
  obtain ⟨_, _, hopen⟩ := openUpload_ok.mp ho
  obtain ⟨hname, hfile⟩ := job.task_names
  obtain ⟨hfs, _⟩ := writeUpload_spec calls hopen
  obtain ⟨hsound, hrow⟩ := upload_rows h.sound ht hwork
  rw [(Job.payload_upload hwork).1] at hfs
  have hupload : job.work ≠ .delete := by
    rw [hwork]
    exact Work.noConfusion
  obtain ⟨hproper, hplain, hown, hends⟩ := (hsafe file ht).resolve_right fun hdir => hupload hdir.2.2
  have hplace : file = job.filename.text :: userDir cwd job.username.text :=
    (touched_target ht).trans (target_userDir cwd hplain)
  rw [hwork] at hends
  refine consistent_changed h ?_ hsound (worker_userId h.sound.idle) hproper hplain hown (leftBytes calls payload.bytes)
    (fun username filename => ?_) fun p => ?_
  · rw [hrun]
    rw [hname, hfile] at hopen
    exact writeUpload_tree (consistent_entered h).tree hopen
  · rw [hrow, ← endsAlike_upload.mp hends]
    by_cases hkey : username = job.username.text ∧ filename = job.filename.text
    · obtain ⟨rfl, rfl⟩ := hkey
      simp only [true_and, and_self, if_true]
    · rw [if_neg fun hc => hkey hc.1, if_neg hkey]
  · rw [hrun, hfs, hplace, entered_fileSize]

theorem consistent_delete (h : Consistent cwd s) (hsafe : Harmless cwd s (job, calls))
    (ht : touched cwd s job calls = some file) (hwork : job.work = .delete) :
    Consistent cwd (workerWorker cwd calls s job.task).1 := by
  obtain ⟨ho, hrun⟩ := worker_delete ht hwork
  obtain ⟨_, _, hremove⟩ := removeDelete_ok.mp ho
  obtain ⟨hname, hfile⟩ := job.task_names
  rw [hname, hfile] at hremove
  obtain ⟨hsound, hrow⟩ := dbRemoveFile_sound calls.metadata h.sound job.username.text
    job.filename.text
  have hids := userId_dbRemoveFile calls.metadata h.sound.idle job.username.text job.filename.text
  have hentered : Consistent cwd (entered cwd s job calls) := consistent_entered h
  have htree := removed_tree hentered.tree job.username job.filename hremove
  rw [hrun]
  rcases hsafe file ht with ⟨hproper, hplain, hown, hends⟩ | ⟨hnofile, hnorow, _⟩
  · rw [hwork] at hends
    have hfault : calls.metadata = .none := hends
    refine consistent_changed h htree hsound hids hproper hplain hown none (fun username filename => ?_)
      fun p => ?_
    · rw [Server.setDb_db, hrow]
      simp only [hfault, and_true]
    · rw [Server.setDb_fs, Server.setFs_fs, Fs.fileSize_erase, entered_fileSize, touched_target ht,
        target_userDir cwd hplain]
  · -- What is removed is a directory, and there is no row.
    have hrow' : ∀ username filename,
        (dbRemoveFile calls.metadata s.db job.username.text job.filename.text).1.tables.fileSize username filename =
          s.db.tables.fileSize username filename := by
      intro username filename
      rw [hrow]
      split
      · rename_i hkey
        obtain ⟨⟨rfl, rfl⟩, _⟩ := hkey
        exact hnorow.symm
      · rfl
    refine ⟨htree, hsound, fun username filename hknown => ?_, fun username filename hsome => ?_⟩
    · have hbefore : Known s username := hknown.imp_right fun hsome => by rwa [← hids]
      rw [Server.setDb_db, Server.setDb_fs, Server.setFs_fs, hrow', Fs.fileSize_erase, entered_fileSize,
        h.rows username filename hbefore]
      split
      · rename_i hp
        rw [hp, hnofile]
      · rfl
    · rw [Server.setDb_db, hrow'] at hsome
      exact h.spelled username filename hsome

/-- A harmless step leaves a consistent server. -/
theorem consistent_step (h : Consistent cwd s) (hsafe : Harmless cwd s (job, calls)) :
    Consistent cwd (workerWorker cwd calls s job.task).1 := by
  cases ht : touched cwd s job calls with
  | none =>
    rw [worker_untouched ht]
    exact consistent_entered h
  | some file =>
    cases hwork : job.work with
    | upload payload => exact consistent_upload h hsafe ht hwork
    | delete => exact consistent_delete h hsafe ht hwork

/-- The quota that the tables hold is what the disk holds. -/
theorem Consistent.quota (h : Consistent cwd s) {username : Bytes} {bytes : Nat}
    (hquota : s.db.tables.quotaUsed username = some bytes) : bytes = s.fs.bytesIn (userDir cwd username) := by
  obtain ⟨user, hmem, rfl, hid⟩ := Tables.quotaUsed_eq_some hquota
  have hknown : Known s username := .inr (by rw [hid]; rfl)
  have hschema := h.sound.accounted.schema
  rw [h.sound.accounted.quota user hmem, Tables.storedBytes_eq, Fs.bytesIn]
  -- Both lists hold a name with its size once.
  have hperm : (s.db.tables.filesOf user.id).Perm (s.fs.filesIn (userDir cwd username)) := by
    apply (List.perm_ext_iff_of_nodup (hschema.nodup_filesOf _) (Fs.nodup_filesIn _)).mpr
    rintro ⟨filename, size⟩
    rw [Fs.mem_filesIn, ← h.rows username filename hknown, hschema.fileSize_eq_some, Tables.mem_filesOf]
    simp [hid]
  exact (hperm.map Prod.snd).sum_nat

/-- A row has its file, under the names that it has. -/
theorem Consistent.row_file (h : Consistent cwd s) {u : Username} {f : Filename} {size : Nat}
    (hrow : s.db.tables.fileSize u.text f.text = some size) :
    s.fs.fileSize (f.text :: userDir cwd u.text) = some size := by
  obtain ⟨hproper, _⟩ := h.spelled u.text f.text (by rw [hrow]; rfl)
  rw [← h.rows u.text f.text (.inl hproper), hrow]

/-- The file behind a row is in its directory, so that `remove` finds it. -/
theorem Consistent.removable (h : Consistent cwd s) {u : Username} {f : Filename} {size : Nat}
    (hrow : s.db.tables.fileSize u.text f.text = some size) :
    s.fs.remove cwd (filePath u.text f.text) = .ok (f.text :: userDir cwd u.text) := by
  obtain ⟨hproper, hplain⟩ := h.spelled u.text f.text (by rw [hrow]; rfl)
  obtain ⟨content, hnode, _⟩ := Fs.fileSize_eq_some.mp (h.row_file hrow)
  have hname := isName_of_isPlain hplain
  have hparts : filePath u.text f.text = (ascii "storage" :: components u.text) ++ [f.text] := by
    rw [filePath_eq u.length_le f.length_le, components_plain hplain]
    rfl
  have hnames : ∀ c ∈ ascii "storage" :: components u.text, isName c = true := by
    intro c hc
    rcases List.mem_cons.mp hc with rfl | hc
    · decide
    · exact List.all_eq_true.mp hproper c hc
  have hend : resolve cwd (ascii "storage" :: components u.text) = userDir cwd u.text := by
    rw [resolve_names hnames, userDir_proper cwd hproper, List.reverse_cons, List.append_assoc]
    rfl
  -- Every directory on the way has the file below it.
  have hlocate : s.fs.locate cwd (filePath u.text f.text) .einval = .ok (f.text :: userDir cwd u.text) := by
    rw [hparts]
    refine Fs.locate_ok.mpr ⟨by rwa [List.getLastD_concat], ?_, fun q hq => ?_⟩
    · rw [resolve_append, hend, resolve_name hname]
    · rw [List.dropLast_concat] at hq
      obtain ⟨hne, habove⟩ := lookups_names hnames hq
      rw [hend] at habove
      have hbelow : q ≠ f.text :: userDir cwd u.text := by
        rintro rfl
        exact absurd habove.length_le (by simp)
      obtain ⟨name, hentry⟩ := h.tree.has_entry (by rw [hnode]; rfl) (habove.trans (List.suffix_cons _ _)) hbelow
      exact (h.tree.parent name q hentry).resolve_left hne
  have htrim : Fs.trimSlashes (filePath u.text f.text) = filePath u.text f.text := by
    apply Fs.trimSlashes_name
    rw [hparts, List.getLastD_concat]
    exact f.ne_nil
  rw [Fs.remove, htrim, hlocate]
  simp [Except.bind, hnode]

theorem Consistent.reclaims (h : Consistent cwd s) {u : Username} {f : Filename} {size : Nat}
    (hrow : s.db.tables.fileSize u.text f.text = some size) : Reclaims cwd s u f size := by
  intro sessionId
  have hsound := h.sound.accounted
  obtain ⟨id, hid, hmem⟩ := hsound.schema.fileSize_eq_some.mp hrow
  have hentered : Consistent cwd (entered cwd s ⟨sessionId, u, f, .delete⟩ .succeeding) :=
    consistent_entered h
  have hremove := hentered.removable hrow
  have hacquire : acquire .succeeding (entered cwd s ⟨sessionId, u, f, .delete⟩ .succeeding)
      (Job.task ⟨sessionId, u, f, .delete⟩) "DELETE" = .ok () := by
    simp [acquire, userExists, Calls.succeeding, entered, Job.task, hid]
  have htouched : touched cwd s ⟨sessionId, u, f, .delete⟩ .succeeding = some (f.text :: userDir cwd u.text) :=
    toOption_eq_some.mpr (removeDelete_ok.mpr ⟨hacquire, rfl, hremove⟩)
  obtain ⟨_, hrun⟩ := worker_delete htouched rfl
  have hdone := dbRemoveFile_row h.sound hid hmem
  rw [hrun, show Calls.succeeding.metadata = .none from rfl, hdone]
  refine ⟨s.db.tables.storedBytes id, (s.db.tables.deleteFile id f.text).storedBytes id, rfl, ?_, ?_,
    hsound.quotaUsed_eq hid, hsound.schema.storedBytes_removed hmem⟩
  · rw [Server.setDb_db, hsound.schema.fileSize_removed hid, if_pos ⟨rfl, rfl⟩]
  · rw [Server.setDb_db, (hsound.removed id f.text).quotaUsed_eq (by simpa using hid)]
    rfl

theorem Consistent.agree (h : Consistent cwd s) : Agree cwd s where
  row_iff_file := by
    intro u f hu hf
    rw [target_userDir cwd hf]
    exact h.rows u.text f.text hu
  row_file := by
    intro u f size hrow
    obtain ⟨_, hplain⟩ := h.spelled u.text f.text (by rw [hrow]; rfl)
    rw [target_userDir cwd hplain]
    exact h.row_file hrow
  quota := fun _ _ hquota => h.quota hquota
  reclaim := fun _ _ _ hrow => h.reclaims hrow

/-- In every run of harmless steps, disk and database agree between any two of them. -/
theorem disk_and_database_agree (h : Consistent cwd s) (jobs : List (Job × Calls))
    (hrun : Along (execute cwd) (Harmless cwd) s jobs) : Always (execute cwd) (Agree cwd) s jobs := by
  refine (Along.always ?_ h hrun).mono fun _ => Consistent.agree
  rintro s ⟨job, calls⟩ t hs hsafe hstep
  obtain rfl := Option.some.inj hstep
  exact consistent_step hs hsafe

/-- Jobs on plain names all of whose calls succeed are harmless where all usernames are proper. -/
theorem harmless_succeeding (h : Consistent cwd s) (husers : ∀ username, (s.db.tables.userId username).isSome →
    isProper username = true) {jobs : List Job}
    (hjobs : ∀ job ∈ jobs, isProper job.username.text = true ∧ isPlain job.filename.text = true) :
    Along (execute cwd) (Harmless cwd) s (jobs.map fun job => (job, .succeeding)) := by
  induction jobs generalizing s with
  | nil => trivial
  | cons job jobs ih =>
    obtain ⟨hproper, hplain⟩ := hjobs job List.mem_cons_self
    have hsafe : Harmless cwd s (job, .succeeding) := by
      intro file _
      refine .inl ⟨hproper, hplain, fun other hother => userDir_inj (husers other hother) hproper, ?_⟩
      cases job.work with
      | upload payload => simp [EndsAlike, Calls.wrote, Calls.stored, Calls.written, Calls.succeeding]
      | delete => rfl
    rintro t ht
    obtain rfl := Option.some.inj ht
    have hstill : ∀ username, ((workerWorker cwd Calls.succeeding s job.task).1.db.tables.userId username).isSome →
        isProper username = true := by
      intro username hsome
      rw [worker_userId h.sound.idle] at hsome
      exact husers username hsome
    exact ⟨hsafe, ih (consistent_step h hsafe) hstill fun job hjob => hjobs job (List.mem_cons_of_mem _ hjob)⟩

/-- A server on which nothing has been stored yet. -/
theorem consistent_fresh {t : Tables} (ht : t.Accounted) (hids : ∀ user ∈ t.users, columnInt user.id = user.id)
    (hfiles : t.files = []) : Consistent [] ⟨⟨[], List.nodup_nil⟩, ⟨t, none⟩⟩ where
  tree := by
    refine ⟨rfl, fun name p hsome => ?_, fun p hs => .inl (List.suffix_nil.mp hs)⟩
    cases hsome
  sound := ⟨rfl, ht, hids⟩
  rows := by
    intro username filename _
    simp [Tables.fileSize, hfiles]
    rfl
  spelled := by
    intro username filename hsome
    simp [Tables.fileSize, hfiles] at hsome

end

def freshServer : Server := ⟨⟨[], List.nodup_nil⟩, ⟨accounts, none⟩⟩

theorem accounts_accounted : accounts.Accounted := ⟨accounts_schema, by decide⟩

def aliceUpload (bytes : Bytes) (h : bytes.length < 2 ^ 63) : Job := ⟨1, nameAlice, report, .upload ⟨bytes, h⟩⟩
def aliceDelete : Job := ⟨1, nameAlice, report, .delete⟩

/-- A user whose directory is in that of another. -/
def nestedAccounts : Tables := ⟨[⟨1, ascii "alice", [], 0, 104857600⟩, ⟨2, ascii "alice/work", [], 0, 104857600⟩], []⟩

def nameNested : Username := ⟨ascii "alice/work", by decide, by decide, by decide +kernel, by decide⟩

def nestedServer : Server := ⟨⟨[], List.nodup_nil⟩, ⟨nestedAccounts, none⟩⟩

def nestedJobs : List Job :=
  [aliceUpload (ascii "abc") (by decide), ⟨2, nameNested, report, .upload ⟨ascii "de", by decide⟩⟩, aliceDelete]

theorem nestedServer_consistent : Consistent [] nestedServer :=
  consistent_fresh ⟨⟨by decide, by decide, by decide⟩, by decide⟩ (by decide) rfl

theorem nestedServer_users (username : Bytes) (h : (nestedServer.db.tables.userId username).isSome) :
    isProper username = true := by
  obtain ⟨id, hid⟩ := Option.isSome_iff_exists.mp h
  obtain ⟨user, hmem, rfl, _⟩ := Tables.userId_eq_some hid
  have hall : ∀ user ∈ nestedAccounts.users, isProper user.username = true := by decide
  exact hall user hmem

theorem disk_and_database_agree_fresh :
    Always (execute []) (Agree []) nestedServer (nestedJobs.map fun job => (job, .succeeding)) :=
  disk_and_database_agree nestedServer_consistent _
    (harmless_succeeding nestedServer_consistent nestedServer_users (by decide))

/-- What the three jobs leave: the file of the nested user, with its row. -/
example : ((run (execute []) nestedServer (nestedJobs.map fun job => (job, .succeeding))).map fun s =>
    (s.db.tables.fileSize nameNested.text report.text, s.fs.fileSize (target [] nameNested.text report.text),
      s.db.tables.fileSize nameAlice.text report.text)) = some (some 2, some 2, none) := by
  decide +kernel

/-- The second upload stops short after it has truncated the file of the first. -/
def failedOverwrite : List (Job × Calls) :=
  [(aliceUpload (ascii "abc") (by decide), .succeeding),
    (aliceUpload (ascii "de") (by decide), { Calls.succeeding with fwrite := some 1 })]

/-- The file is gone, its row is not, and `DELETE` does not find anything to remove. -/
theorem failed_overwrite_keeps_row :
    Consistent [] freshServer ∧
    (∃ t, run (execute []) freshServer failedOverwrite = some t ∧
      t.db.tables.fileSize nameAlice.text report.text = some 3 ∧
      t.fs.fileSize (target [] nameAlice.text report.text) = none ∧
      (workerWorker [] .succeeding t aliceDelete.task).2.status = .fileNotFound) ∧
    ¬ Always (execute []) (Agree []) freshServer failedOverwrite := by
  have hend : ∃ t, run (execute []) freshServer failedOverwrite = some t ∧
      t.db.tables.fileSize nameAlice.text report.text = some 3 ∧
      t.fs.fileSize (target [] nameAlice.text report.text) = none ∧
      (workerWorker [] .succeeding t aliceDelete.task).2.status = .fileNotFound :=
    ⟨_, rfl, by decide +kernel, by decide +kernel, by decide +kernel⟩
  refine ⟨consistent_fresh accounts_accounted (by decide) rfl, hend, fun halways => ?_⟩
  obtain ⟨t, hrun, hrow, hfile, _⟩ := hend
  have hagree := (halways.last hrun).row_iff_file nameAlice report (.inl (by decide)) (by decide)
  rw [hrow, hfile] at hagree
  cases hagree

end Stash.Threads
