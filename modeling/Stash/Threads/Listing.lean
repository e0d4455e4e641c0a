import Mathlib.Data.Finset.Basic
import Stash.Threads.Isolation
import Stash.Threads.ListFraming
import Stash.Threads.UploadAnswers

/-! What a listing shows after a history of uploads and deletes of its user that were all
answered with success. -/
namespace Stash.Threads
open Foundation.CText Foundation.Scanf Foundation.Paths Foundation.FileTree Foundation.Runs Auth

/-- One task that is answered with success. -/
def succeed (cwd : Path) (s : Server) (a : Job × Calls) : Option Server :=
  if (workerWorker cwd a.2 s a.1.task).2.status = .success then execute cwd s a else none

/-- What a successful job does to the names that its user has stored. -/
def record (names : Finset Bytes) (job : Job) : Finset Bytes :=
  match job.work with
  | .upload _ => insert job.filename.text names
  | .delete => names.erase job.filename.text

/-- The names that have been stored and not been deleted. -/
def storedNames (history : List (Job × Calls)) : Finset Bytes :=
  history.foldl (fun names a => record names a.1) ∅

/-- A job of the user on a name without a slash. -/
def OwnJob (u : Username) (job : Job) : Prop := job.username.text = u.text ∧ slash ∉ job.filename.text

/-- There is a storage directory, and the user has nothing in its own. -/
structure NothingStored (cwd : Path) (s : Server) (u : Username) : Prop where
  storage : s.fs.node (storageDir cwd) = some .dir
  empty : s.fs.readdir (homeDir cwd u) = []

/-- The directory of the user holds exactly these names. -/
structure Stocked (cwd : Path) (u : Username) (names : Finset Bytes) (s : Server) : Prop where
  storage : s.fs.node (storageDir cwd) = some .dir
  apart : homeDir cwd u ≠ cwd
  entries : ∀ name, name ∈ s.fs.readdir (homeDir cwd u) ↔ name ∈ names
  plain : ∀ name ∈ names, isName name = true

def listing (cwd : Path) (calls : Calls) (s : Server) (sessionId : UInt64) (u : Username) : Response :=
  (workerWorker cwd calls s ⟨.list, sessionId, u.text, [], 0, none⟩).2

section
variable {cwd : Path} {calls : Calls} {s t : Server} {u : Username} {job : Job} {names : Finset Bytes}

theorem homeDir_eq (cwd : Path) (u : Username) : homeDir cwd u = resolve (storageDir cwd) (components u.text) := by
  have hname : isName (ascii "storage") = true := by decide
  rw [homeDir, userPath_eq u.length_le, resolve, List.foldl_cons, enter, if_pos hname]
  rfl

/-- A file without a slash in its name is an entry of the directory of its user. -/
theorem target_own (hown : OwnJob u job) (hname : isName job.filename.text = true) :
    resolve cwd (filePath job.username.text job.filename.text) = job.filename.text :: homeDir cwd u := by
  have hu : u.text.length ≤ 63 := u.length_le
  rw [hown.1, ← target, target_eq cwd hu job.filename.length_le, components_of_no_slash hown.2, resolve_append,
    resolve_name hname, homeDir_eq]

theorem filePath_last (hown : OwnJob u job) :
    (filePath job.username.text job.filename.text).getLastD [] = job.filename.text := by
  rw [filePath_eq job.username.length_le job.filename.length_le, components_of_no_slash hown.2,
    ← List.cons_append, List.getLastD_concat]

/-- Before the task is looked at, nothing changes in the directory of the user. -/
theorem stocked_makeDirs (h : Stocked cwd u names s) :
    Stocked cwd u names (s.setFs (makeDirs cwd calls u.text s.fs)) := by
  have hcases : makeDirs cwd calls u.text s.fs = s.fs ∨
      makeDirs cwd calls u.text s.fs = s.fs.insert (homeDir cwd u) .dir := by
    rw [makeDirs_storage h.storage, makeDir]
    split
    · rename_i dir hmk
      have hdir := (Fs.locate_ok.mp (Fs.mkdir_ok (attempt_ok.mp hmk).2).1).2.1
      rw [Fs.resolve_trimSlashes] at hdir
      exact .inr (by rw [hdir, homeDir])
    · exact .inl rfl
  refine ⟨?_, h.apart, fun name => ?_, h.plain⟩
  · rcases hcases with hsame | hmade
    · rw [Server.setFs_fs, hsame, h.storage]
    · rw [Server.setFs_fs, hmade, Fs.node_insert, h.storage, ite_self]
  · rcases hcases with hsame | hmade
    · rw [Server.setFs_fs, hsame, h.entries]
    · rw [Server.setFs_fs, hmade, Fs.mem_readdir_self, h.entries]

theorem removeDelete_error {task : Task} {response : Response}
    (h : removeDelete cwd calls s task = .error response) : response.status ≠ .success := by
  rcases attempted_refused h with hacquire | ⟨e, rfl⟩
  · rcases acquire_refused hacquire with rfl | rfl
    · decide
    · decide
  · cases e <;> decide

/-- An upload that is answered with success leaves its file. -/
theorem upload_success {payload : Payload} (hwork : job.work = .upload payload)
    (h : (workerWorker cwd calls s job.task).2.status = .success) :
    ∃ file content, (entered cwd s job calls).fs.openWrite cwd (filePath job.username.text job.filename.text) =
        .ok file ∧
      (workerWorker cwd calls s job.task).1.fs = (entered cwd s job calls).fs.insert file (.file content) := by
  obtain ⟨sessionId, v, f, work⟩ := job
  obtain rfl : work = .upload payload := hwork
  cases ho : openUpload cwd calls (entered cwd s ⟨sessionId, v, f, .upload payload⟩ calls)
      (Job.task ⟨sessionId, v, f, .upload payload⟩) with
  | error response =>
    have hstatus := openUpload_error ho
    simp only [entered, Job.task] at ho
    simp only [Job.task, workerWorker, taskUpload, ho, hstatus, reduceCtorEq] at h
  | ok file =>
    refine ⟨file, calls.stored (Job.task ⟨sessionId, v, f, .upload payload⟩).payload,
      (openUpload_ok.mp ho).2.2, ?_⟩
    simp only [entered, Job.task] at ho
    have hrun : workerWorker cwd calls s (Job.task ⟨sessionId, v, f, .upload payload⟩) =
        writeUpload cwd calls (entered cwd s ⟨sessionId, v, f, .upload payload⟩ calls)
          (Job.task ⟨sessionId, v, f, .upload payload⟩) file := by
      simp only [Job.task, workerWorker, taskUpload, ho, entered]
    rw [hrun, writeUpload] at h ⊢
    cases hwrote : calls.wrote (Job.task ⟨sessionId, v, f, .upload payload⟩).payload with
    | true =>
      rw [if_pos rfl]
      rfl
    | false =>
      rw [hwrote] at h
      cases h

/-- A delete that is answered with success takes its entry away. -/
theorem delete_success (hwork : job.work = .delete)
    (h : (workerWorker cwd calls s job.task).2.status = .success) :
    ∃ file, (entered cwd s job calls).fs.remove cwd (filePath job.username.text job.filename.text) = .ok file ∧
      (workerWorker cwd calls s job.task).1.fs = (entered cwd s job calls).fs.erase file := by
  obtain ⟨sessionId, v, f, work⟩ := job
  obtain rfl : work = .delete := hwork
  cases ho : removeDelete cwd calls (entered cwd s ⟨sessionId, v, f, .delete⟩ calls)
      (Job.task ⟨sessionId, v, f, .delete⟩) with
  | error response =>
    have hstatus := removeDelete_error ho
    simp only [entered, Job.task] at ho
    simp only [Job.task, workerWorker, taskDelete, ho] at h
    exact absurd h hstatus
  | ok file =>
    refine ⟨file, (removeDelete_ok.mp ho).2.2, ?_⟩
    simp only [entered, Job.task] at ho
    simp only [Job.task, workerWorker, taskDelete, ho, entered, Server.setDb_fs, Server.setFs_fs]

/-- A successful job changes the directory as it changes the set of stored names. -/
theorem stocked_step (h : Stocked cwd u names s) (hown : OwnJob u job)
    (hsuccess : (workerWorker cwd calls s job.task).2.status = .success) :
    Stocked cwd u (record names job) (workerWorker cwd calls s job.task).1 := by
  have hentered : Stocked cwd u names (entered cwd s job calls) := by
    rw [entered, hown.1]
    exact stocked_makeDirs h
  have hstorage : job.filename.text :: homeDir cwd u ≠ storageDir cwd :=
    fun heq => h.apart (List.cons.inj heq).2
  cases hwork : job.work with
  | upload payload =>
    obtain ⟨file, content, hopen, hfs⟩ := upload_success hwork hsuccess
    obtain ⟨hname, htarget, _⟩ := Fs.locate_ok.mp (Fs.openWrite_ok.mp hopen).1
    rw [filePath_last hown] at hname
    rw [target_own hown hname] at htarget
    subst htarget
    simp only [record, hwork]
    refine ⟨?_, h.apart, fun name => ?_, fun name hmem => ?_⟩
    · rw [hfs, Fs.node_insert, if_neg hstorage.symm, hentered.storage]
    · rw [hfs, Fs.mem_readdir_insert, Finset.mem_insert, hentered.entries]
    · rcases Finset.mem_insert.mp hmem with rfl | hold
      · exact hname
      · exact h.plain name hold
  | delete =>
    obtain ⟨file, hremove, hfs⟩ := delete_success hwork hsuccess
    have hlast := filePath_last hown
    have htrim : Fs.trimSlashes (filePath job.username.text job.filename.text) =
        filePath job.username.text job.filename.text :=
      Fs.trimSlashes_name (by rw [hlast]; exact job.filename.ne_nil)
    obtain ⟨hname, htarget, _⟩ := Fs.locate_ok.mp (Fs.remove_ok hremove).1
    rw [htrim] at hname htarget
    rw [hlast] at hname
    rw [target_own hown hname] at htarget
    subst htarget
    simp only [record, hwork]
    refine ⟨?_, h.apart, fun name => ?_, fun name hmem => ?_⟩
    · rw [hfs, Fs.node_erase, if_neg hstorage.symm, hentered.storage]
    · rw [hfs, Fs.mem_readdir_erase, Finset.mem_erase, hentered.entries]
    · exact h.plain name (Finset.mem_of_mem_erase hmem)

theorem stocked_run (h : Stocked cwd u names s) {history : List (Job × Calls)}
    (hown : ∀ a ∈ history, OwnJob u a.1) (hrun : run (succeed cwd) s history = some t) :
    Stocked cwd u (history.foldl (fun names a => record names a.1) names) t := by
  induction history generalizing s names with
  | nil =>
    obtain rfl := Option.some.inj hrun
    exact h
  | cons a history ih =>
    obtain ⟨next, hstep, hrest⟩ := Option.bind_eq_some_iff.mp hrun
    obtain ⟨hsuccess, hnext⟩ := Option.ite_none_right_eq_some.mp hstep
    obtain rfl := Option.some.inj hnext
    exact ih (stocked_step h (hown a (List.mem_cons_self ..)) hsuccess)
      (fun b hb => hown b (List.mem_cons_of_mem _ hb)) hrest

theorem stocked_nothing (h : NothingStored cwd s u) : Stocked cwd u ∅ s where
  storage := h.storage
  apart := by
    intro heq
    have hmem : ascii "storage" ∈ s.fs.readdir (homeDir cwd u) := by
      rw [heq]
      exact Fs.mem_readdir.mpr ⟨_, h.storage⟩
    rw [h.empty] at hmem
    cases hmem
  entries := by
    intro name
    rw [h.empty]
    simp
  plain := by
    intro name hmem
    simp at hmem

/-- A listing that is answered with success reads the directory of the user. -/
theorem listing_data {sessionId : UInt64} (hread : calls.readdir = none)
    (hsuccess : (listing cwd calls s sessionId u).status = .success) :
    (listing cwd calls s sessionId u).data =
      listData ((makeDirs cwd calls u.text s.fs).readdir (homeDir cwd u)) := by
  simp only [listing, workerWorker, taskList, hread, Option.getD_none] at hsuccess ⊢
  split at hsuccess
  · cases hsuccess
  rename_i huser
  rw [if_neg huser]
  split at hsuccess
  · rename_i e hopen
    cases e <;> cases hsuccess
  · rename_i names hopen
    split at hsuccess
    · rename_i hmalloc
      have hnames := (attempt_ok.mp hopen).2
      cases hwalk : (makeDirs cwd calls u.text s.fs).walk cwd (userPath u.text) with
      | error e =>
        rw [Server.setFs_fs, Fs.opendir, hwalk] at hnames
        cases hnames
      | ok dir =>
        rw [Server.setFs_fs, Fs.opendir, hwalk] at hnames
        simp only [hmalloc, if_true, List.take_length]
        rw [← Except.ok.inj hnames, (Fs.walk_ok.mp hwalk).1, homeDir]
    · cases hsuccess

/-- Of the names of files only two are skipped. -/
theorem skipped_plain {name : Bytes} (hname : isName name = true) :
    (!skipped name) = true ↔ name ≠ ascii "metadata.txt" ∧ name ≠ ascii "metadata.tmp" := by
  simp only [isName, Bool.and_eq_true, bne_iff_ne] at hname
  simp [skipped, hname.1.2, hname.2]

/-- The names of a listing: from the beginning of the order, as many as fit into the buffer,
with the terminator or a beginning of it behind them. -/
def Lists (order : List Bytes) (data : Bytes) : Prop :=
  ∃ listed rest, listed <+: order ∧
    (∀ p, p <+: order → (lines p).length ≤ listBufferSize - 2 → p <+: listed) ∧
    data = lines listed ++ rest ∧ rest <+: listEnd

/-- What a listing shows, name by name. -/
def ListsExactly (names : Finset Bytes) (data : Bytes) : Prop :=
  ∃ order : List Bytes, order.Nodup ∧ (∀ name, name ∈ order ↔ name ∈ names) ∧ lines order ++ listEnd = data

/-- After a history of successful tasks a listing has the names that are stored, each once and
without the two that it skips, up to the first for which the buffer has no room. -/
theorem list_shows_stored {cwd : Path} {s t : Server} {u : Username} (hs : NothingStored cwd s u)
    {history : List (Job × Calls)} (hown : ∀ a ∈ history, OwnJob u a.1)
    (hrun : run (succeed cwd) s history = some t) {calls : Calls} (hread : calls.readdir = none)
    {sessionId : UInt64} (hsuccess : (listing cwd calls t sessionId u).status = .success) :
    ∃ order : List Bytes, order.Nodup ∧
      (∀ name, name ∈ order ↔
        name ∈ storedNames history ∧ name ≠ ascii "metadata.txt" ∧ name ≠ ascii "metadata.tmp") ∧
      Lists order (listing cwd calls t sessionId u).data ∧
      ((lines order).length ≤ 4086 → (listing cwd calls t sessionId u).data = lines order ++ listEnd) := by
  have hstocked : Stocked cwd u (storedNames history) (t.setFs (makeDirs cwd calls u.text t.fs)) :=
    stocked_makeDirs (stocked_run (stocked_nothing hs) hown hrun)
  rw [Server.setFs] at hstocked
  have hentries := hstocked.entries
  simp only at hentries
  obtain ⟨listed, hprefix, hlist, hlength, hmax⟩ := listNames_spec []
    ((makeDirs cwd calls u.text t.fs).readdir (homeDir cwd u)) (Nat.zero_le _)
  rw [List.nil_append] at hlist hlength
  have hdata := (listing_data hread hsuccess).trans (listData_eq hlist)
  refine ⟨shown ((makeDirs cwd calls u.text t.fs).readdir (homeDir cwd u)),
    (Fs.nodup_readdir _ _).filter _, fun name => ?_, ⟨listed, _, hprefix, ?_, hdata, List.take_prefix _ _⟩, fun hfits => ?_⟩
  · rw [shown, List.mem_filter, hentries]
    apply and_congr_right
    intro hmem
    exact skipped_plain (hstocked.plain name hmem)
  · intro p hp hlen
    exact hmax p hp (by rwa [List.nil_append])
  · have hroom : listBufferSize = 4096 := rfl
    have hend : listEnd.length = 9 := rfl
    have hall := hmax _ (List.prefix_refl _) (by rw [List.nil_append]; omega)
    rw [← List.IsPrefix.eq_of_length_le hprefix hall.length_le] at hfits ⊢
    rw [hdata, List.take_of_length_le (by omega)]

end

def emptyAlice : Server := ⟨⟨[(storageDir [], .dir)], List.nodup_singleton _⟩, ⟨accounts, none⟩⟩

theorem emptyAlice_nothing : NothingStored [] emptyAlice nameAlice := ⟨by decide +kernel, by decide +kernel⟩

def emptyUpload (f : Filename) : Job × Calls := (⟨1, nameAlice, f, .upload ⟨[], by decide⟩⟩, .succeeding)

/-- The server after one upload. -/
def stockedAlice (f : Filename) : Server := (workerWorker [] .succeeding emptyAlice (emptyUpload f).1.task).1

theorem run_emptyUpload {f : Filename}
    (h : (workerWorker [] .succeeding emptyAlice (emptyUpload f).1.task).2.status = .success) :
    run (succeed []) emptyAlice [emptyUpload f] = some (stockedAlice f) := by
  simp only [run, succeed, execute]
  rw [show (emptyUpload f).2 = Calls.succeeding from rfl, if_pos h]
  rfl

def metadataName : Filename := ⟨ascii "metadata.txt", by decide, by decide, by decide +kernel, by decide⟩
def draft : Filename := ⟨ascii "draft", by decide, by decide, by decide +kernel, by decide⟩
def notes : Filename := ⟨ascii "notes.txt", by decide, by decide, by decide +kernel, by decide⟩

/-- Uploads of four names, one of them twice and one of them skipped, and a delete. -/
def severalJobs : List (Job × Calls) :=
  [(aliceUpload (ascii "first") (by decide), .succeeding), emptyUpload draft, emptyUpload metadataName, emptyUpload notes,
    (aliceUpload (ascii "second") (by decide), .succeeding), (⟨1, nameAlice, draft, .delete⟩, .succeeding)]

theorem severalJobs_own : ∀ a ∈ severalJobs, OwnJob nameAlice a.1 := by
  have hall : ∀ a ∈ severalJobs, a.1.username.text = nameAlice.text ∧ slash ∉ a.1.filename.text := by decide
  exact hall

theorem severalJobs_listed : ∃ t, run (succeed []) emptyAlice severalJobs = some t ∧
    (listing [] .succeeding t 1 nameAlice).status = .success := by
  have hrun : ((run (succeed []) emptyAlice severalJobs).map fun t =>
      (listing [] .succeeding t 1 nameAlice).status) = some .success := by decide +kernel
  exact Option.map_eq_some_iff.mp hrun

theorem list_shows_report : ∃ t, run (succeed []) emptyAlice severalJobs = some t ∧
    ∃ order : List Bytes, order.Nodup ∧
      (∀ name, name ∈ order ↔ name ∈ storedNames severalJobs ∧ name ≠ ascii "metadata.txt" ∧
        name ≠ ascii "metadata.tmp") ∧
      Lists order (listing [] .succeeding t 1 nameAlice).data ∧
      ((lines order).length ≤ 4086 → (listing [] .succeeding t 1 nameAlice).data = lines order ++ listEnd) := by
  obtain ⟨t, hrun, hsuccess⟩ := severalJobs_listed
  exact ⟨t, hrun, list_shows_stored emptyAlice_nothing severalJobs_own hrun rfl hsuccess⟩

/-- Seventeen names of 255 bytes. -/
def longName (i : Fin 17) : Filename where
  text := UInt8.ofNat (97 + i) :: List.replicate 254 120
  ne_nil := List.cons_ne_nil _ _
  length_le := by rw [List.length_cons, List.length_replicate]
  no_space := by
    intro c hmem
    rcases List.mem_cons.mp hmem with rfl | hrest
    · revert i
      decide
    · rw [List.eq_of_mem_replicate hrest]
      decide
  no_nul := by
    intro hmem
    rcases List.mem_cons.mp hmem with hzero | hrest
    · revert i
      decide
    · exact absurd (List.eq_of_mem_replicate hrest) (by decide)

def manyUploads : List (Job × Calls) := (List.finRange 17).map fun i => emptyUpload (longName i)

theorem manyUploads_listed : ∃ t, run (succeed []) emptyAlice manyUploads = some t ∧
    (listing [] .succeeding t 1 nameAlice).status = .success := by
  have hrun : ((run (succeed []) emptyAlice manyUploads).map fun t =>
      (listing [] .succeeding t 1 nameAlice).status) = some .success := by decide +kernel
  exact Option.map_eq_some_iff.mp hrun

/-- A stored file that the listing skips, and seventeen stored files whose names need more room
than the buffer has. -/
theorem listing_leaves_out_names :
    (run (succeed []) emptyAlice [emptyUpload metadataName] = some (stockedAlice metadataName) ∧
      (listing [] .succeeding (stockedAlice metadataName) 1 nameAlice).status = .success ∧
      ¬ ListsExactly (storedNames [emptyUpload metadataName])
        (listing [] .succeeding (stockedAlice metadataName) 1 nameAlice).data) ∧
    ∃ t, run (succeed []) emptyAlice manyUploads = some t ∧
      (listing [] .succeeding t 1 nameAlice).status = .success ∧
      ¬ ListsExactly (storedNames manyUploads) (listing [] .succeeding t 1 nameAlice).data := by
  constructor
  · refine ⟨run_emptyUpload (by decide +kernel), by decide +kernel, ?_⟩
    rintro ⟨order, _, hmem, hdata⟩
    have hempty : (listing [] .succeeding (stockedAlice metadataName) 1 nameAlice).data = listEnd := by
      decide +kernel
    have hstored : metadataName.text ∈ order := (hmem _).mpr (by decide +kernel)
    have hlines : lines order = [] := List.append_left_eq_self.mp (hdata.trans hempty)
    exact absurd (List.flatMap_eq_nil_iff.mp hlines _ hstored) (by decide)
  · obtain ⟨t, hrun, hsuccess⟩ := manyUploads_listed
    refine ⟨t, hrun, hsuccess, ?_⟩
    rintro ⟨order, _, hmem, hdata⟩
    have hlength : ∀ name ∈ order, name.length + 1 = 256 := by
      have hstored : ∀ name ∈ storedNames manyUploads, name.length + 1 = 256 := by decide +kernel
      exact fun name hname => hstored name ((hmem name).mp hname)
    have hmany : 17 ≤ order.length := by
      have hnodup : ((List.finRange 17).map fun i => (longName i).text).Nodup := by decide +kernel
      have hsubset : ((List.finRange 17).map fun i => (longName i).text) ⊆ order := by
        have hstored : ∀ i, (longName i).text ∈ storedNames manyUploads := by decide +kernel
        intro name hname
        obtain ⟨i, _, rfl⟩ := List.mem_map.mp hname
        exact (hmem _).mpr (hstored i)
      simpa using (hnodup.subperm hsubset).length_le
    have hlines : (lines order).length = order.length * 256 := by
      rw [length_lines, List.map_congr_left hlength]
      simp
    have hshort := length_listData ((makeDirs [] .succeeding nameAlice.text t.fs).readdir (homeDir [] nameAlice))
    rw [← listing_data rfl hsuccess, ← hdata, List.length_append, hlines, listBufferSize] at hshort
    omega

end Stash.Threads
