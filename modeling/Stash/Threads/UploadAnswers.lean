import Stash.Auth.Transactions
import Stash.Threads.DiskAgreement

/-! What the answer to an upload says about the file on the disk and about its row, however
the calls of the task end. -/
namespace Stash.Threads
open Foundation.CText Foundation.Scanf Foundation.Paths Foundation.FileTree Auth

section
variable (cwd : Path) (calls : Calls) (s : Server) (sessionId : UInt64) (u : Username) (f : Filename)
  (payload : Payload)

/-- The task of `UPLOAD` and its answer. -/
def upload : Server × Response :=
  workerWorker cwd calls s (Job.task ⟨sessionId, u, f, .upload payload⟩)

/-- One of the two `mkdir` makes the entry to which `storage/u/f` leads. -/
def MakesTarget : Prop :=
  attempt calls.mkdirStorage (s.fs.mkdir cwd (components (ascii "storage"))) =
      .ok (target cwd u.text f.text) ∨
    attempt calls.mkdirUser
        ((makeDir calls.mkdirStorage cwd (components (ascii "storage")) s.fs).mkdir cwd (userPath u.text)) =
      .ok (target cwd u.text f.text)

/-- The user is found, the lock is got and the file is opened. -/
def Opens : Prop :=
  userExists calls.userQuery s.db.tables u.text = true ∧ calls.fileLock = true ∧ calls.fopen = none ∧
    ∃ file, (makeDirs cwd calls u.text s.fs).openWrite cwd (filePath u.text f.text) = .ok file

/-- An error leaves the entry of the file and its row as they were. -/
def UnchangedOnError : Prop :=
  (upload cwd calls s sessionId u f payload).2.status = .error →
    (upload cwd calls s sessionId u f payload).1.fs.node (target cwd u.text f.text) =
        s.fs.node (target cwd u.text f.text) ∧
      (upload cwd calls s sessionId u f payload).1.db.tables.fileSize u.text f.text =
        s.db.tables.fileSize u.text f.text

/-- The file was not there and is removed again, or it is not removed and holds what it held. -/
def Restored : Prop :=
  if calls.remove = none then s.fs.node (target cwd u.text f.text) = none
  else s.fs.node (target cwd u.text f.text) = some (.file (calls.stored payload.bytes))

/-- The file has exactly the payload, its row is there with that size, and the quota is that
of the rows. -/
def StoredOnOk : Prop :=
  (upload cwd calls s sessionId u f payload).2 = ⟨.success, ascii "UPLOAD OK\n", []⟩ →
    (upload cwd calls s sessionId u f payload).1.fs.node (target cwd u.text f.text) =
        some (.file payload.bytes) ∧
      (upload cwd calls s sessionId u f payload).1.db.tables.fileSize u.text f.text =
        some payload.bytes.length ∧
      (upload cwd calls s sessionId u f payload).1.db.tables.Charged u.text ∧
      (upload cwd calls s sessionId u f payload).1.db.saved = none

/-- The three ways in which the task ends. -/
inductive Ending (result : Server × Response) : Prop where
  | unopened (closed : ¬ Opens cwd calls s u f) (status : result.2.status = .error)
      (server : result.1 = s.setFs (makeDirs cwd calls u.text s.fs))
  | written (opens : Opens cwd calls s u f) (wrote : calls.wrote payload.bytes = true)
      (answer : result.2 = ⟨.success, ascii "UPLOAD OK\n", []⟩)
      (file : result.1.fs.node (target cwd u.text f.text) = some (.file (calls.stored payload.bytes)))
      (db : result.1.db =
        (dbAddOrUpdateFile calls.metadata s.db u.text f.text payload.bytes.length).1)
  | cleaned (opens : Opens cwd calls s u f) (failed : calls.wrote payload.bytes = false)
      (status : result.2.status = .error)
      (file : result.1.fs.node (target cwd u.text f.text) =
        if calls.remove = none then none else some (.file (calls.stored payload.bytes)))
      (db : result.1.db = s.db)

end

section
variable {cwd : Path} {calls : Calls} {s : Server} {u : Username} {f : Filename} {payload : Payload}

theorem acquire_eq_ok {task : Task} {command : String} : acquire calls s task command = .ok () ↔
    userExists calls.userQuery s.db.tables task.username = true ∧ calls.fileLock = true := by
  unfold acquire
  cases userExists calls.userQuery s.db.tables task.username with
  | false => simp
  | true => cases calls.fileLock <;> simp

/-- Whatever keeps an upload from being opened is answered with an error. -/
theorem openUpload_error {task : Task} {response : Response}
    (h : openUpload cwd calls s task = .error response) : response.status = .error := by
  rcases attempted_refused h with hacquire | ⟨e, rfl⟩
  · rcases acquire_refused hacquire with rfl | rfl
    · rfl
    · rfl
  · cases e <;> rfl

theorem node_makeDir {fault : Option Errno} {path : List Bytes} {fs : Fs} {p : Path} :
    (attempt fault (fs.mkdir cwd path) = .ok p → fs.node p = none ∧
      (makeDir fault cwd path fs).node p = some .dir) ∧
    (attempt fault (fs.mkdir cwd path) ≠ .ok p → (makeDir fault cwd path fs).node p = fs.node p) := by
  unfold makeDir
  cases hmk : attempt fault (fs.mkdir cwd path) with
  | error e => simp
  | ok dir =>
    have hnone := (Fs.mkdir_ok (attempt_ok.mp hmk).2).2
    constructor
    · intro h
      obtain rfl := Except.ok.inj h
      exact ⟨hnone, by rw [Fs.node_insert, if_pos rfl]⟩
    · intro h
      rw [Fs.node_insert, if_neg]
      rintro rfl
      exact h rfl

/-- The directories that a task makes change the entry of its file only by making it. -/
theorem node_makeDirs :
    (makeDirs cwd calls u.text s.fs).node (target cwd u.text f.text) =
        s.fs.node (target cwd u.text f.text) ↔ ¬ MakesTarget cwd calls s u f := by
  obtain ⟨hmade, hkept⟩ := @node_makeDir cwd calls.mkdirStorage (components (ascii "storage")) s.fs
    (target cwd u.text f.text)
  obtain ⟨hmade', hkept'⟩ := @node_makeDir cwd calls.mkdirUser (userPath u.text)
    (makeDir calls.mkdirStorage cwd (components (ascii "storage")) s.fs) (target cwd u.text f.text)
  by_cases hstorage : attempt calls.mkdirStorage (s.fs.mkdir cwd (components (ascii "storage"))) =
      .ok (target cwd u.text f.text)
  · obtain ⟨hnone, hdir⟩ := hmade hstorage
    have huser := mt hmade' (by rw [hdir]; simp)
    rw [makeDirs, hkept' huser, hdir, hnone]
    simp [MakesTarget, hstorage]
  · by_cases huser : attempt calls.mkdirUser ((makeDir calls.mkdirStorage cwd
        (components (ascii "storage")) s.fs).mkdir cwd (userPath u.text)) = .ok (target cwd u.text f.text)
    · obtain ⟨hnone, hdir⟩ := hmade' huser
      rw [hkept hstorage] at hnone
      rw [makeDirs, hdir, hnone]
      simp [MakesTarget, huser]
    · rw [makeDirs, hkept' huser, hkept hstorage]
      simp [MakesTarget, hstorage, huser]

/-- Where the file is opened no directory has been made. -/
theorem Opens.node (h : Opens cwd calls s u f) : ¬ MakesTarget cwd calls s u f := by
  obtain ⟨_, _, _, file, hopen⟩ := h
  obtain ⟨hlocate, hfile⟩ := Fs.openWrite_ok.mp hopen
  have htarget : file = target cwd u.text f.text := (Fs.locate_ok.mp hlocate).2.1
  rw [htarget] at hfile
  rintro (hstorage | huser)
  · obtain ⟨_, hdir⟩ := node_makeDir.1 hstorage
    by_cases huser : attempt calls.mkdirUser ((makeDir calls.mkdirStorage cwd
        (components (ascii "storage")) s.fs).mkdir cwd (userPath u.text)) = .ok (target cwd u.text f.text)
    · exact hfile (node_makeDir.1 huser).2
    · exact hfile ((node_makeDir.2 huser).trans hdir)
  · exact hfile (node_makeDir.1 huser).2

theorem opens_iff {sessionId : UInt64} : Opens cwd calls s u f ↔
    ∃ file, openUpload cwd calls (entered cwd s ⟨sessionId, u, f, .upload payload⟩ calls)
      (Job.task ⟨sessionId, u, f, .upload payload⟩) = .ok file := by
  simp only [openUpload_ok, acquire_eq_ok, exists_and_left, Opens]
  exact and_assoc.symm

/-- Every upload ends in one of the three ways. -/
theorem upload_ending (sessionId : UInt64) :
    Ending cwd calls s u f payload (upload cwd calls s sessionId u f payload) := by
  have hopens := @opens_iff cwd calls s u f payload sessionId
  cases ho : openUpload cwd calls (entered cwd s ⟨sessionId, u, f, .upload payload⟩ calls)
      (Job.task ⟨sessionId, u, f, .upload payload⟩) with
  | error response =>
    rw [ho] at hopens
    have hrun : upload cwd calls s sessionId u f payload =
        (entered cwd s ⟨sessionId, u, f, .upload payload⟩ calls, response) := by
      simp only [entered, Job.task] at ho
      simp only [upload, Job.task, workerWorker, taskUpload, ho, entered]
    rw [hrun]
    exact .unopened (fun h => by cases (hopens.mp h).choose_spec) (openUpload_error ho) rfl
  | ok file =>
    have hopen := (openUpload_ok.mp ho).2.2
    have htarget : file = target cwd u.text f.text :=
      (Fs.locate_ok.mp (Fs.openWrite_ok.mp hopen).1).2.1
    obtain ⟨hpayload, hsize⟩ := Job.payload_upload
      (show (⟨sessionId, u, f, .upload payload⟩ : Job).work = .upload payload from rfl)
    have hrun : upload cwd calls s sessionId u f payload =
        writeUpload cwd calls (entered cwd s ⟨sessionId, u, f, .upload payload⟩ calls)
          (Job.task ⟨sessionId, u, f, .upload payload⟩) file := by
      simp only [entered, Job.task] at ho
      simp only [upload, Job.task, workerWorker, taskUpload, ho, entered]
    have hopened : Opens cwd calls s u f := hopens.mpr ⟨file, ho⟩
    rw [hrun, writeUpload, hpayload, hsize]
    cases hw : calls.wrote payload.bytes with
    | true =>
      rw [if_pos rfl]
      exact .written hopened hw rfl (by rw [Server.setDb_fs, Server.setFs_fs, Fs.node_insert, if_pos htarget.symm]) rfl
    | false =>
      rw [if_neg Bool.false_ne_true, removeFile_written hopen]
      refine .cleaned hopened hw rfl ?_ ?_
      · split
        · simp [htarget]
        · simp [htarget]
      · split
        · rfl
        · rfl

/-- A failed upload changes nothing exactly when no directory is made under its name, and a
file whose write fails had not been there, or cannot be removed and holds what it held. -/
theorem unchanged_on_error_iff (cwd : Path) (calls : Calls) (s : Server) (sessionId : UInt64) (u : Username)
    (f : Filename) (payload : Payload) :
    UnchangedOnError cwd calls s sessionId u f payload ↔
      ¬ MakesTarget cwd calls s u f ∧
        (Opens cwd calls s u f → calls.wrote payload.bytes = false → Restored cwd calls s u f payload) := by
  rw [UnchangedOnError]
  cases @upload_ending cwd calls s u f payload sessionId with
  | unopened hclosed hstatus hserver =>
    rw [hserver, Server.setFs_fs, node_makeDirs]
    simp [hstatus, hclosed]
  | written hopens hwrote hanswer _ _ =>
    simp [hanswer, hopens.node, hwrote]
  | cleaned hopens hfailed hstatus hfile hdb =>
    rw [hfile, hdb]
    simp only [hstatus, hopens, hopens.node, hfailed, not_false_eq_true, and_true, true_and, forall_const, Restored]
    split
    · exact eq_comm
    · exact eq_comm

end

/-- Three bytes of `alice` are overwritten and the write stops after one. -/
def aliceServer : Server :=
  ⟨⟨[(storageDir [], .dir), (ascii "alice" :: storageDir [], .dir),
      (ascii "report" :: ascii "alice" :: storageDir [], .file (ascii "abc"))], by decide⟩,
    ⟨⟨[⟨1, ascii "alice", [], 3, 104857600⟩], [⟨1, ascii "report", 3⟩]⟩, none⟩⟩

def shortWrite : Calls := { Calls.succeeding with fwrite := some 1 }

/-- The earlier version is gone and its row is still there. -/
theorem short_write_removes_file :
    (upload [] shortWrite aliceServer 1 nameAlice report ⟨ascii "de", by decide⟩).2.status = .error ∧
      aliceServer.fs.node (target [] nameAlice.text report.text) = some (.file (ascii "abc")) ∧
      (upload [] shortWrite aliceServer 1 nameAlice report ⟨ascii "de", by decide⟩).1.fs.node
        (target [] nameAlice.text report.text) = none ∧
      ¬ UnchangedOnError [] shortWrite aliceServer 1 nameAlice report ⟨ascii "de", by decide⟩ := by
  have hstatus : (upload [] shortWrite aliceServer 1 nameAlice report ⟨ascii "de", by decide⟩).2.status =
      .error := by decide +kernel
  have hbefore : aliceServer.fs.node (target [] nameAlice.text report.text) = some (.file (ascii "abc")) := by
    decide +kernel
  have hafter : (upload [] shortWrite aliceServer 1 nameAlice report ⟨ascii "de", by decide⟩).1.fs.node
      (target [] nameAlice.text report.text) = none := by decide +kernel
  refine ⟨hstatus, hbefore, hafter, fun hsame => ?_⟩
  have hnode := (hsame hstatus).1
  rw [hbefore, hafter] at hnode
  cases hnode

/-- What `fwrite` has taken is on the disk when `fclose` does not fail. -/
theorem stored_closed {calls : Calls} {bytes : Bytes} (hwrote : calls.wrote bytes = true) (hclosed : calls.fclose = none) :
    calls.stored bytes = bytes := by
  simp only [Calls.wrote, Bool.and_eq_true, beq_iff_eq] at hwrote
  rw [Calls.stored, hwrote.2, hclosed, Option.getD_none, Nat.min_self, List.take_length]

/-- When an upload is answered with success and the file could be closed, the file has exactly
the payload. Where the metadata call returned zero for a user whose id an `int` holds, the row
and the quota are committed; where it failed, which is a warning only, they are as before. -/
theorem upload_ok_stored (cwd : Path) (calls : Calls) (fs : Fs) (t : Tables) (sessionId : UInt64)
    (u : Username) (f : Filename) (payload : Payload)
    (hanswer : (upload cwd calls ⟨fs, ⟨t, none⟩⟩ sessionId u f payload).2 = ⟨.success, ascii "UPLOAD OK\n", []⟩)
    (hclosed : calls.fclose = none) :
    (upload cwd calls ⟨fs, ⟨t, none⟩⟩ sessionId u f payload).1.fs.node (target cwd u.text f.text) =
        some (.file payload.bytes) ∧
      ((dbAddOrUpdateFile calls.metadata ⟨t, none⟩ u.text f.text payload.bytes.length).2 = 0 →
        (∀ id, t.userId u.text = some id → columnInt id = id) →
        (upload cwd calls ⟨fs, ⟨t, none⟩⟩ sessionId u f payload).1.db.tables.fileSize u.text f.text =
            some payload.bytes.length ∧
          (upload cwd calls ⟨fs, ⟨t, none⟩⟩ sessionId u f payload).1.db.tables.Charged u.text) ∧
      ((dbAddOrUpdateFile calls.metadata ⟨t, none⟩ u.text f.text payload.bytes.length).2 ≠ 0 →
        (upload cwd calls ⟨fs, ⟨t, none⟩⟩ sessionId u f payload).1.db.tables = t) ∧
      (upload cwd calls ⟨fs, ⟨t, none⟩⟩ sessionId u f payload).1.db.saved = none := by
  cases @upload_ending cwd calls ⟨fs, ⟨t, none⟩⟩ u f payload sessionId with
  | unopened _ hstatus _ =>
    rw [hanswer] at hstatus
    cases hstatus
  | cleaned _ _ hstatus _ _ =>
    rw [hanswer] at hstatus
    cases hstatus
  | written _ hwrote _ hfile hdb =>
    rw [hfile, hdb, stored_closed hwrote hclosed]
    refine ⟨rfl, ?_⟩
    rcases dbAddOrUpdateFile_spec calls.metadata (show (⟨t, none⟩ : Connection).saved = none from rfl) u.text f.text
        payload.bytes.length with
      ⟨id, _, hid, hdone⟩ | ⟨_, hsame, hresult⟩
    · rw [hdone]
      exact ⟨fun _ hfits => (Tables.recorded_visible hid).mpr (.inl (hfits id hid)),
        fun hne => absurd rfl hne, rfl⟩
    · rw [hsame]
      exact ⟨fun hzero => absurd hzero hresult, fun _ => rfl, rfl⟩

theorem upload_ok_stored_alice :
    (upload [] .succeeding aliceServer 1 nameAlice report ⟨ascii "de", by decide⟩).1.fs.node
        (target [] nameAlice.text report.text) = some (.file (ascii "de")) ∧
      (upload [] .succeeding aliceServer 1 nameAlice report ⟨ascii "de", by decide⟩).1.db.tables.fileSize
        nameAlice.text report.text = some 2 := by
  obtain ⟨hfile, hrow, _⟩ := upload_ok_stored [] .succeeding aliceServer.fs aliceServer.db.tables 1
    nameAlice report ⟨ascii "de", by decide⟩ (by decide +kernel) rfl
  exact ⟨hfile, (hrow (by decide) (by decide)).1⟩

/-- The file is stored, the transaction fails at `COMMIT`, and the answer is `UPLOAD OK`. -/
theorem uncommitted_upload_ok :
    (upload [] { Calls.succeeding with metadata := .commit } freshServer 1 nameAlice report
        ⟨ascii "abc", by decide⟩).2 = ⟨.success, ascii "UPLOAD OK\n", []⟩ ∧
      (upload [] { Calls.succeeding with metadata := .commit } freshServer 1 nameAlice report
        ⟨ascii "abc", by decide⟩).1.db.tables.fileSize nameAlice.text report.text = none ∧
      ¬ StoredOnOk [] { Calls.succeeding with metadata := .commit } freshServer 1 nameAlice report
        ⟨ascii "abc", by decide⟩ := by
  have hanswer : (upload [] { Calls.succeeding with metadata := .commit } freshServer 1 nameAlice report
      ⟨ascii "abc", by decide⟩).2 = ⟨.success, ascii "UPLOAD OK\n", []⟩ := by decide +kernel
  have hrow : (upload [] { Calls.succeeding with metadata := .commit } freshServer 1 nameAlice report
      ⟨ascii "abc", by decide⟩).1.db.tables.fileSize nameAlice.text report.text = none := by decide +kernel
  refine ⟨hanswer, hrow, fun hstored => ?_⟩
  have hsize := (hstored hanswer).2.1
  rw [hrow] at hsize
  cases hsize

end Stash.Threads
