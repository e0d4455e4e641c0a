import Stash.Threads.SameFile

/-! The effect of a task on its file is what a worker does that nobody disturbs. -/
namespace Stash.Threads
open Foundation.CText Foundation.Paths Foundation.FileTree Auth

/-- The task as it comes out of the queue. -/
def FileTask.task (t : FileTask) (sessionId : UInt64) (u : Username) (f : Filename) : Task :=
  match t with
  | .upload payload _ => Job.task ⟨sessionId, u, f, .upload payload⟩
  | .download => ⟨.download, sessionId, u.text, f.text, 0, none⟩
  | .delete => Job.task ⟨sessionId, u, f, .delete⟩

def FileTask.calls : FileTask → Calls
  | .upload _ result => result.calls
  | _ => .succeeding

def content : Node → Option Bytes
  | .dir => none
  | .file content => some content

/-- The file and the row that a server has under the names. -/
def Server.world (s : Server) (cwd : Path) (u : Username) (f : Filename) : World where
  file := (s.fs.node (target cwd u.text f.text)).bind content
  row := s.db.tables.fileSize u.text f.text

/-- The user is registered and has a directory; no directory is in the place of the file. -/
structure Serves (cwd : Path) (u : Username) (f : Filename) (s : Server) : Prop where
  storage : s.fs.node (storageDir cwd) = some .dir
  home : s.fs.node (u.text :: storageDir cwd) = some .dir
  file : s.fs.node (target cwd u.text f.text) ≠ some .dir
  sound : s.db.Sound
  user : (s.db.tables.userId u.text).isSome

/-- The user's directory is there, and the server does to the file what the task does to its
world. -/
structure Effect (cwd : Path) (u : Username) (f : Filename) (t : FileTask) (s : Server)
    (r : Server × Response) : Prop where
  serves : Serves cwd u f r.1
  world : r.1.world cwd u f = (t.effect (s.world cwd u f)).1
  response : r.2 = (t.effect (s.world cwd u f)).2

section
variable {cwd : Path} {u : Username} {f : Filename} {s : Server} {calls : Calls} {fs : Fs} {db : Connection}
  {left : Option Bytes} {sessionId : UInt64}

/-- The file can change, and the directories stay. -/
private theorem Serves.setFs (h : Serves cwd u f s) (hu : isPlain u.text = true) (hf : isPlain f.text = true)
    (hfs : ∀ p, fs.node p = if p = target cwd u.text f.text then left.map .file else s.fs.node p) :
    Serves cwd u f (s.setFs fs) := by
  have hkept (p : Path) (hp : p.length < (target cwd u.text f.text).length) : fs.node p = s.fs.node p := by
    rw [hfs, if_neg]
    rintro rfl
    exact lt_irrefl _ hp
  have htarget := target_plain cwd u.length_le f.length_le hu hf
  refine ⟨?_, ?_, ?_, h.sound, h.user⟩
  · rw [Server.setFs_fs, hkept _ (by simp only [htarget, List.length_cons]; omega), h.storage]
  · rw [Server.setFs_fs, hkept _ (by simp only [htarget, List.length_cons]; omega), h.home]
  · rw [Server.setFs_fs, hfs, if_pos rfl]
    cases left with
    | none => simp
    | some bytes => simp

private theorem world_setFs (hfs : fs.node (target cwd u.text f.text) = left.map .file) :
    (s.setFs fs).world cwd u f = ⟨left, (s.world cwd u f).row⟩ := by
  cases left with
  | none => simp [Server.world, hfs]
  | some bytes => simp [Server.world, hfs, content]

private theorem world_setDb {w : World} {row : Option Nat} (hw : s.world cwd u f = w)
    (hrow : db.tables.fileSize u.text f.text = row) : (s.setDb db).world cwd u f = ⟨w.file, row⟩ := by
  rw [← hw, ← hrow]
  rfl

/-- No directory is missing. -/
private theorem entered_same (h : Serves cwd u f s) (hu : isPlain u.text = true) :
    makeDirs cwd calls u.text s.fs = s.fs := by
  have hhome : resolve cwd (userPath u.text) = u.text :: storageDir cwd := by
    have hname : isName (ascii "storage") = true := by decide
    rw [userPath_eq u.length_le, components_plain hu, resolve, List.foldl_cons, enter, if_pos hname]
    exact resolve_name (isName_of_isPlain hu)
  rw [makeDirs_storage h.storage, makeDir_present (userPath u.text) (by rw [hhome, h.home]; rfl)]

private theorem acquired (h : Serves cwd u f s) (hquery : calls.userQuery = true) (hlock : calls.fileLock = true)
    {task : Task} (htask : task.username = u.text) (command : String) :
    acquire calls s task command = .ok () := by
  simp [acquire, userExists, hquery, hlock, htask, h.user]

/-- The metadata that an upload writes, and that a delete removes. -/
private theorem serves_added (h : Serves cwd u f s) (size : Nat) :
    Serves cwd u f (s.setDb (dbAddOrUpdateFile .none s.db u.text f.text size).1) ∧
      (dbAddOrUpdateFile .none s.db u.text f.text size).1.tables.fileSize u.text f.text = some size := by
  obtain ⟨hsound, hrow⟩ := dbAddOrUpdateFile_sound .none h.sound h.user f.text size
  refine ⟨⟨h.storage, h.home, h.file, hsound, ?_⟩, by rw [hrow]; simp⟩
  rcases dbAddOrUpdateFile_spec .none h.sound.idle u.text f.text size with ⟨id, _, _, hdone⟩ | ⟨_, hsame, _⟩
  · rw [Server.setDb_db, hdone]
    simpa using h.user
  · rw [Server.setDb_db, hsame]
    exact h.user

private theorem serves_removed (h : Serves cwd u f s) :
    Serves cwd u f (s.setDb (dbRemoveFile .none s.db u.text f.text).1) ∧
      (dbRemoveFile .none s.db u.text f.text).1.tables.fileSize u.text f.text = none := by
  obtain ⟨hsound, hrow⟩ := dbRemoveFile_sound .none h.sound u.text f.text
  refine ⟨⟨h.storage, h.home, h.file, hsound, ?_⟩, by rw [hrow]; simp⟩
  rcases dbRemoveFile_spec .none h.sound.idle u.text f.text with ⟨id, _, _, _, hdone⟩ | ⟨_, hsame, _⟩
  · rw [Server.setDb_db, hdone]
    simpa using h.user
  · rw [Server.setDb_db, hsame]
    exact h.user

/-- `TASK_UPLOAD` -/
private theorem upload_effect (h : Serves cwd u f s) (hu : isPlain u.text = true) (hf : isPlain f.text = true)
    (payload : Payload) (result : WriteResult) :
    Effect cwd u f (.upload payload result) s
      (workerWorker cwd result.calls s (Job.task ⟨sessionId, u, f, .upload payload⟩)) := by
  obtain ⟨hpayload, hsize⟩ := @Job.payload_upload ⟨sessionId, u, f, .upload payload⟩ payload rfl
  have htarget := target_plain cwd u.length_le f.length_le hu hf
  have hopen : s.fs.openWrite cwd (filePath u.text f.text) = .ok (target cwd u.text f.text) := by
    rw [Fs.openWrite_ok, locate_plain hu hf h.storage h.home, htarget]
    exact ⟨rfl, htarget ▸ h.file⟩
  have hrun : workerWorker cwd result.calls s (Job.task ⟨sessionId, u, f, .upload payload⟩) =
      writeUpload cwd result.calls s (Job.task ⟨sessionId, u, f, .upload payload⟩) (target cwd u.text f.text) := by
    have hsame : s.setFs (makeDirs cwd result.calls u.text s.fs) = s := by
      rw [entered_same h hu]
      rfl
    have hupload : openUpload cwd result.calls s (Job.task ⟨sessionId, u, f, .upload payload⟩) =
        .ok (target cwd u.text f.text) := openUpload_ok.mpr ⟨acquired h rfl rfl rfl _, rfl, hopen⟩
    simp only [Job.task] at hupload
    simp only [workerWorker, Job.task, hsame, taskUpload, hupload]
  have hinsert (p : Path) : (s.fs.insert (target cwd u.text f.text) (.file (result.calls.stored payload.bytes))).node p =
      if p = target cwd u.text f.text then (some (result.calls.stored payload.bytes)).map .file else s.fs.node p :=
    Fs.node_insert _ _ _ _
  rw [hrun, writeUpload, hpayload]
  cases hwrote : result.calls.wrote payload.bytes with
  | true =>
    simp only [if_true]
    obtain ⟨hserves, hrow⟩ := serves_added (h.setFs hu hf hinsert) payload.bytes.length
    rw [← hsize] at hserves hrow
    refine ⟨hserves, (world_setDb (world_setFs ((hinsert _).trans (if_pos rfl))) hrow).trans ?_, ?_⟩
    · simp [FileTask.effect, hwrote, hsize]
    · simp [FileTask.effect, hwrote, uploadOk]
  | false =>
    have hremoved : removeFile cwd result.calls
        (s.setFs (s.fs.insert (target cwd u.text f.text) (.file (result.calls.stored payload.bytes))))
        (Job.task ⟨sessionId, u, f, .upload payload⟩) =
          s.setFs ((s.fs.insert (target cwd u.text f.text) (.file (result.calls.stored payload.bytes))).erase
            (target cwd u.text f.text)) := by
      have hremove : result.calls.remove = none := rfl
      rw [removeFile_written (by exact hopen), if_pos hremove]
    have herase (p : Path) : ((s.fs.insert (target cwd u.text f.text)
        (.file (result.calls.stored payload.bytes))).erase (target cwd u.text f.text)).node p =
          if p = target cwd u.text f.text then (none : Option Bytes).map .file else s.fs.node p := by
      rw [Fs.node_erase, hinsert]
      split
      · rfl
      · rfl
    simp only [Bool.false_eq_true, if_false, hremoved]
    have hgone := world_setFs (s := s) ((herase (target cwd u.text f.text)).trans (if_pos rfl))
    refine ⟨h.setFs hu hf herase, hgone.trans ?_, ?_⟩
    · simp [FileTask.effect, hwrote]
    · simp [FileTask.effect, hwrote, uploadFailed]

/-- `TASK_DOWNLOAD` -/
private theorem download_effect (h : Serves cwd u f s) (hu : isPlain u.text = true) (hf : isPlain f.text = true) :
    Effect cwd u f .download s
      (workerWorker cwd .succeeding s ⟨.download, sessionId, u.text, f.text, 0, none⟩) := by
  have htarget := target_plain cwd u.length_le f.length_le hu hf
  have hsame : s.setFs (makeDirs cwd .succeeding u.text s.fs) = s := by
    rw [entered_same h hu]
    rfl
  obtain ⟨hfound, hmissing⟩ := Fs.openRead_located (locate_plain hu hf h.storage h.home .einval)
  rw [← htarget] at hfound hmissing
  have hacquire : acquire .succeeding s ⟨.download, sessionId, u.text, f.text, 0, none⟩ "DOWNLOAD" = .ok () :=
    acquired h rfl rfl rfl _
  simp only [workerWorker, hsame, taskDownload, openDownload, hacquire]
  cases hnode : s.fs.node (target cwd u.text f.text) with
  | none =>
    rw [hmissing hnode]
    have hfile : (s.world cwd u f).file = none := by rw [Server.world, hnode]; rfl
    exact ⟨h, by simp [FileTask.effect, hfile], by simp [FileTask.effect, hfile]; rfl⟩
  | some n =>
    rw [hfound n hnode]
    cases n with
    | dir => exact absurd hnode h.file
    | file bytes =>
      have hfile : (s.world cwd u f).file = some bytes := by rw [Server.world, hnode]; rfl
      refine ⟨h, by simp [FileTask.effect, hfile], ?_⟩
      simp [FileTask.effect, hfile, readDownload, Calls.succeeding, downloadOk, attempt, Except.mapError, Except.bind]

/-- `TASK_DELETE` -/
private theorem delete_effect (h : Serves cwd u f s) (hu : isPlain u.text = true) (hf : isPlain f.text = true) :
    Effect cwd u f .delete s (workerWorker cwd .succeeding s (Job.task ⟨sessionId, u, f, .delete⟩)) := by
  have htarget := target_plain cwd u.length_le f.length_le hu hf
  have hsame : s.setFs (makeDirs cwd .succeeding u.text s.fs) = s := by
    rw [entered_same h hu]
    rfl
  have htrim : Fs.trimSlashes (filePath u.text f.text) = filePath u.text f.text := by
    rw [filePath_plain hu hf]
    exact Fs.trimSlashes_name f.ne_nil
  have hacquire : acquire .succeeding s (Job.task ⟨sessionId, u, f, .delete⟩) "DELETE" = .ok () :=
    acquired h rfl rfl rfl _
  have hlocate := locate_plain hu hf h.storage h.home .einval
  rw [← htrim, ← htarget] at hlocate
  cases hnode : s.fs.node (target cwd u.text f.text) with
  | none =>
    have hfile : (s.world cwd u f).file = none := by rw [Server.world, hnode]; rfl
    have hremove : s.fs.remove cwd (filePath u.text f.text) = .error .enoent := by
      simp only [Fs.remove, hlocate, Except.bind, hnode]
    have hdelete : removeDelete cwd .succeeding s (Job.task ⟨sessionId, u, f, .delete⟩) =
        .error (deleteError .enoent) := by
      rw [removeDelete, hacquire]
      simp only [Job.task, hremove]
      rfl
    simp only [Job.task] at hdelete
    simp only [workerWorker, Job.task, hsame, taskDelete, hdelete]
    exact ⟨h, by simp [FileTask.effect, hfile], by simp [FileTask.effect, hfile]⟩
  | some n =>
    cases n with
    | dir => exact absurd hnode h.file
    | file bytes =>
      have hfile : (s.world cwd u f).file = some bytes := by rw [Server.world, hnode]; rfl
      have hremove : s.fs.remove cwd (filePath u.text f.text) = .ok (target cwd u.text f.text) := by
        simp only [Fs.remove, hlocate, Except.bind, hnode]
        exact if_pos htrim
      have hdelete : removeDelete cwd .succeeding s (Job.task ⟨sessionId, u, f, .delete⟩) =
          .ok (target cwd u.text f.text) := removeDelete_ok.mpr ⟨hacquire, rfl, hremove⟩
      have herase (p : Path) : (s.fs.erase (target cwd u.text f.text)).node p =
          if p = target cwd u.text f.text then (none : Option Bytes).map .file else s.fs.node p :=
        Fs.node_erase _ _ _
      obtain ⟨hserves, hrow⟩ := serves_removed (h.setFs hu hf herase)
      simp only [Job.task] at hdelete
      simp only [workerWorker, Job.task, hsame, taskDelete, hdelete]
      have hgone := world_setFs (s := s) ((herase (target cwd u.text f.text)).trans (if_pos rfl))
      refine ⟨hserves, (world_setDb hgone hrow).trans ?_, ?_⟩
      · simp [FileTask.effect, hfile]
      · simp [FileTask.effect, hfile, deleteOk]

/-- A worker alone on the file does what the task does. -/
theorem worker_effect (sessionId : UInt64) (h : Serves cwd u f s) (hu : isPlain u.text = true)
    (hf : isPlain f.text = true) (t : FileTask) : Effect cwd u f t s (workerWorker cwd t.calls s (t.task sessionId u f)) := by
  cases t with
  | upload payload result => exact upload_effect h hu hf payload result
  | download => exact download_effect h hu hf
  | delete => exact delete_effect h hu hf

/-- Workers that take the tasks of the list one at a time. -/
def serveTasks (cwd : Path) (u : Username) (f : Filename) (sessionId : Nat → UInt64) (tasks : List FileTask)
    (s : Server) (order : List Nat) : Server × List (Nat × Response) :=
  order.foldl
    (fun done i =>
      match tasks[i]? with
      | some t =>
        let r := workerWorker cwd t.calls done.1 (t.task (sessionId i) u f)
        (r.1, done.2 ++ [(i, r.2)])
      | none => done)
    (s, [])

/-- The replay of the tasks is what such workers do. -/
theorem serveTasks_replay (h : Serves cwd u f s) (hu : isPlain u.text = true) (hf : isPlain f.text = true)
    (sessionId : Nat → UInt64) (tasks : List FileTask) (order : List Nat) :
    Serves cwd u f (serveTasks cwd u f sessionId tasks s order).1 ∧
      ((serveTasks cwd u f sessionId tasks s order).1.world cwd u f,
        (serveTasks cwd u f sessionId tasks s order).2) = replay tasks (s.world cwd u f) order := by
  induction order using List.reverseRecOn with
  | nil => exact ⟨h, rfl⟩
  | append_singleton order i ih =>
    obtain ⟨hserves, hreplay⟩ := ih
    simp only [serveTasks, replay, List.foldl_append, List.foldl_cons, List.foldl_nil] at hserves hreplay ⊢
    rw [← hreplay]
    cases ht : tasks[i]? with
    | none => exact ⟨hserves, rfl⟩
    | some t =>
      have heffect := worker_effect (sessionId i) hserves hu hf t
      exact ⟨heffect.serves, by simp only [heffect.world, heffect.response]⟩

end

end Stash.Threads
