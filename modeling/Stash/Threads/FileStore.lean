import Stash.Foundation.Traces
import Stash.Threads.Listing
import Stash.Threads.Serializability
import Stash.Threads.WorkerEffect

/-! The server as a store of files by user and name. Over any history of tasks of users and files
with plain names, the workers answer as the store does. -/
namespace Stash.Threads
open Foundation.CText Foundation.Scanf Foundation.Paths Foundation.FileTree Foundation.Traces Auth

/-- What every user has under every name. -/
abbrev Store := Bytes → Bytes → World

def Store.put (store : Store) (username filename : Bytes) (w : World) : Store :=
  Function.update store username (Function.update (store username) filename w)

inductive Demand where
  | file (f : Filename) (t : FileTask)
  | list

/-- A task of a session that is authenticated as the user. -/
structure FileRequest where
  sessionId : UInt64
  username : Username
  demand : Demand

def FileRequest.task (r : FileRequest) : Task :=
  match r.demand with
  | .file f t => t.task r.sessionId r.username f
  | .list => ⟨.list, r.sessionId, r.username.text, [], 0, none⟩

/-- Only the write of an upload may end early. -/
def FileRequest.calls (r : FileRequest) : Calls :=
  match r.demand with
  | .file _ t => t.calls
  | .list => .succeeding

/-- A worker serves one request. -/
def serveRequest (cwd : Path) (s : Server) (r : FileRequest) : Server × Response := workerWorker cwd r.calls s r.task

/-- What the store owes a request: the task's effect on the one file, and a listing of what is
stored, in some order and as far as the buffer has room. -/
def Store.Serves (store : Store) (r : FileRequest) (response : Response) (store' : Store) : Prop :=
  match r.demand with
  | .file f t =>
    store' = store.put r.username.text f.text (t.effect (store r.username.text f.text)).1 ∧
      response = (t.effect (store r.username.text f.text)).2
  | .list =>
    store' = store ∧ response.status = .success ∧ response.message = [] ∧ ∃ order : List Bytes, order.Nodup ∧
      (∀ name, name ∈ order ↔ (store r.username.text name).file.isSome ∧ skipped name = false) ∧
      Lists order response.data ∧
      ((lines order).length ≤ 4086 → response.data = lines order ++ listEnd)

def Server.store (s : Server) (cwd : Path) : Store := fun username filename =>
  ⟨(s.fs.node (filename :: username :: storageDir cwd)).bind content, s.db.tables.fileSize username filename⟩

/-- The members are registered, and nothing but directories is in the place of their directories
and nothing but files in them. -/
structure Serving (cwd : Path) (member : Bytes → Prop) (s : Server) : Prop where
  storage : s.fs.node (storageDir cwd) = none ∨ s.fs.node (storageDir cwd) = some .dir
  home : ∀ username, member username →
    s.fs.node (username :: storageDir cwd) = none ∨ s.fs.node (username :: storageDir cwd) = some .dir
  files : ∀ username name, member username → s.fs.node (name :: username :: storageDir cwd) ≠ some .dir
  sound : s.db.Sound
  registered : ∀ username, member username → (s.db.tables.userId username).isSome

/-- A request of a member whose name is plain, on a plain name. -/
def FileRequest.Allowed (member : Bytes → Prop) (r : FileRequest) : Prop :=
  member r.username.text ∧ isPlain r.username.text = true ∧
    match r.demand with
    | .file f _ => isPlain f.text = true
    | .list => True

section
variable {cwd : Path} {member : Bytes → Prop} {s : Server} {u : Username} {f : Filename} {calls : Calls} {fs : Fs}

@[simp] theorem Store.put_self (store : Store) (username filename : Bytes) (w : World) :
    store.put username filename w username filename = w := by simp [Store.put]

theorem Store.put_of_ne (store : Store) {username filename v g : Bytes} (w : World)
    (h : ¬ (v = username ∧ g = filename)) : store.put username filename w v g = store v g := by
  by_cases hv : v = username
  · subst hv
    have hg : g ≠ filename := fun heq => h ⟨rfl, heq⟩
    simp [Store.put, hg]
  · simp [Store.put, hv]

theorem Store.put_same (store : Store) (username filename : Bytes) :
    store.put username filename (store username filename) = store := by
  simp [Store.put]

theorem entry_ne_dir (name v u : Bytes) (dir : Path) : ¬ (name :: v :: dir = dir ∨ name :: v :: dir = u :: dir) := by
  rintro (heq | heq)
  · have := congrArg List.length heq
    simp only [List.length_cons] at this
    omega
  · have := congrArg List.length heq
    simp only [List.length_cons] at this
    omega

/-- `mkdir` leaves a directory where nothing or a directory was. -/
theorem makeDir_made {path : List Bytes} {p : Path} (hlocate : fs.locate cwd (Fs.trimSlashes path) .eexist = .ok p)
    (hp : fs.node p = none ∨ fs.node p = some .dir) (q : Path) :
    (makeDir none cwd path fs).node q = if q = p then some .dir else fs.node q := by
  rcases hp with hnone | hdir
  · have hmk : fs.mkdir cwd path = .ok p := by simp only [Fs.mkdir, hlocate, Except.bind, hnone]
    simp only [makeDir, attempt, hmk, Fs.node_insert]
  · have hmk : fs.mkdir cwd path = .error .eexist := by simp only [Fs.mkdir, hlocate, Except.bind, hdir]
    simp only [makeDir, attempt, hmk]
    split
    · rename_i hq
      rw [hq, hdir]
    · rfl

/-- The directories that a task of a member finds, or makes. -/
theorem makeDirs_made (h : Serving cwd member s) (hmember : member u.text) (hu : isPlain u.text = true)
    (hstorage : calls.mkdirStorage = none) (huser : calls.mkdirUser = none) (q : Path) :
    (makeDirs cwd calls u.text s.fs).node q =
      if q = storageDir cwd ∨ q = u.text :: storageDir cwd then some .dir else s.fs.node q := by
  have hname : isName (ascii "storage") = true := by decide
  have hfirst : ∀ q, (makeDir none cwd (components (ascii "storage")) s.fs).node q =
      if q = storageDir cwd then some .dir else s.fs.node q := by
    refine makeDir_made (Fs.locate_ok.mpr ?_) h.storage
    have htrim : Fs.trimSlashes (components (ascii "storage")) = [ascii "storage"] := by decide
    rw [htrim]
    refine ⟨hname, ?_, by simp [lookups]⟩
    rw [resolve_name hname]
    rfl
  have hhome : (makeDir none cwd (components (ascii "storage")) s.fs).node (u.text :: storageDir cwd) = none ∨
      (makeDir none cwd (components (ascii "storage")) s.fs).node (u.text :: storageDir cwd) = some .dir := by
    rw [hfirst, if_neg (List.cons_ne_self _ _)]
    exact h.home u.text hmember
  have hlocate : (makeDir none cwd (components (ascii "storage")) s.fs).locate cwd (Fs.trimSlashes (userPath u.text))
      .eexist = .ok (u.text :: storageDir cwd) := by
    have hpath : userPath u.text = [ascii "storage", u.text] := by
      rw [userPath_eq u.length_le, components_plain hu]
    have htrim : Fs.trimSlashes (userPath u.text) = [ascii "storage", u.text] := by
      rw [hpath]
      exact Fs.trimSlashes_name u.ne_nil
    rw [htrim]
    refine Fs.locate_ok.mpr ⟨isName_of_isPlain hu, ?_, fun q hq => ?_⟩
    · simp only [resolve, List.foldl_cons, List.foldl_nil, enter, hname, isName_of_isPlain hu, if_true]
      rfl
    · simp only [List.dropLast, lookups, hname, if_true, List.mem_singleton] at hq
      rw [hq]
      exact (hfirst _).trans (if_pos rfl)
  rw [makeDirs, hstorage, huser, makeDir_made hlocate hhome, hfirst]
  by_cases hq : q = u.text :: storageDir cwd
  · simp [hq]
  · by_cases hq' : q = storageDir cwd
    · simp [hq']
    · simp [hq, hq']

/-- The directory of a user with a plain name. -/
theorem resolve_userPath (cwd : Path) (hu : isPlain u.text = true) :
    resolve cwd (userPath u.text) = u.text :: storageDir cwd := by
  have hname : isName (ascii "storage") = true := by decide
  rw [userPath_eq u.length_le, components_plain hu, resolve, List.foldl_cons, enter, if_pos hname]
  exact resolve_name (isName_of_isPlain hu)

/-- The state in which a worker looks at the type of its task. -/
def Server.enter (s : Server) (cwd : Path) (calls : Calls) (u : Username) : Server :=
  s.setFs (makeDirs cwd calls u.text s.fs)

/-- Making the directories twice changes nothing. -/
theorem worker_enter (h : Serving cwd member s) (hmember : member u.text) (hu : isPlain u.text = true)
    (hstorage : calls.mkdirStorage = none) (huser : calls.mkdirUser = none) {task : Task} (htask : task.username = u.text) :
    workerWorker cwd calls (s.enter cwd calls u) task = workerWorker cwd calls s task := by
  have hmade := makeDirs_made h hmember hu hstorage huser
  have hhome := resolve_userPath cwd hu
  have htwice : makeDirs cwd calls u.text (makeDirs cwd calls u.text s.fs) = makeDirs cwd calls u.text s.fs := by
    rw [makeDirs_storage (by rw [hmade, if_pos (.inl rfl)]),
      makeDir_present (userPath u.text) (by rw [hhome, hmade, if_pos (.inr rfl)]; rfl)]
  simp only [workerWorker, htask, Server.enter, Server.setFs, htwice]

theorem serves_enter (h : Serving cwd member s) (hmember : member u.text) (hu : isPlain u.text = true)
    (hf : isPlain f.text = true) (hstorage : calls.mkdirStorage = none) (huser : calls.mkdirUser = none) :
    Serves cwd u f (s.enter cwd calls u) := by
  have hmade := makeDirs_made h hmember hu hstorage huser
  have htarget := target_plain cwd u.length_le f.length_le hu hf
  refine ⟨?_, ?_, ?_, h.sound, h.registered u.text hmember⟩
  · rw [Server.enter, Server.setFs_fs, hmade, if_pos (.inl rfl)]
  · rw [Server.enter, Server.setFs_fs, hmade, if_pos (.inr rfl)]
  · rw [Server.enter, Server.setFs_fs, hmade, htarget, if_neg (entry_ne_dir _ _ _ _)]
    exact h.files u.text f.text hmember

/-- Files and rows are not touched by `mkdir`. -/
theorem store_enter (h : Serving cwd member s) (hmember : member u.text) (hu : isPlain u.text = true)
    (hstorage : calls.mkdirStorage = none) (huser : calls.mkdirUser = none) :
    (s.enter cwd calls u).store cwd = s.store cwd := by
  funext v g
  simp only [Server.store, Server.enter, Server.setFs_fs, Server.setFs_db,
    makeDirs_made h hmember hu hstorage huser, if_neg (entry_ne_dir _ _ _ _)]

theorem serving_enter (h : Serving cwd member s) (hmember : member u.text) (hu : isPlain u.text = true)
    (hstorage : calls.mkdirStorage = none) (huser : calls.mkdirUser = none) :
    Serving cwd member (s.enter cwd calls u) := by
  have hmade := makeDirs_made h hmember hu hstorage huser
  refine ⟨.inr ?_, fun v hv => ?_, fun v g hv => ?_, h.sound, h.registered⟩
  · rw [Server.enter, Server.setFs_fs, hmade, if_pos (.inl rfl)]
  · rw [Server.enter, Server.setFs_fs, hmade]
    split
    · exact .inr rfl
    · exact h.home v hv
  · rw [Server.enter, Server.setFs_fs, hmade, if_neg (entry_ne_dir _ _ _ _)]
    exact h.files v g hv

/-- What a task can leave behind at most: another content under its target, and other rows of its
user and name. -/
structure Footprint (cwd : Path) (u : Username) (f : Filename) (s s' : Server) : Prop where
  node : ∀ p, p ≠ target cwd u.text f.text → s'.fs.node p = s.fs.node p
  row : ∀ v g, ¬ (v = u.text ∧ g = f.text) → s'.db.tables.fileSize v g = s.db.tables.fileSize v g
  users : ∀ v, (s.db.tables.userId v).isSome → (s'.db.tables.userId v).isSome

theorem Footprint.refl (cwd : Path) (u : Username) (f : Filename) (s : Server) : Footprint cwd u f s s :=
  ⟨fun _ _ => rfl, fun _ _ _ => rfl, fun _ hv => hv⟩

/-- The directories of the user are there. -/
theorem entered_eq (h : Serves cwd u f s) (hu : isPlain u.text = true) (sessionId : UInt64) (work : Work) :
    entered cwd s ⟨sessionId, u, f, work⟩ calls = s := by
  have hhome := resolve_userPath cwd hu
  rw [entered, makeDirs_storage h.storage, makeDir_present (userPath u.text) (by rw [hhome, h.home]; rfl)]
  rfl

/-- However its calls end, a job leaves everything else alone. -/
theorem job_footprint (h : Serves cwd u f s) (hu : isPlain u.text = true)
    (sessionId : UInt64) (work : Work) :
    Footprint cwd u f s (workerWorker cwd calls s (Job.task ⟨sessionId, u, f, work⟩)).1 := by
  set job : Job := ⟨sessionId, u, f, work⟩ with hjob
  have hentered : entered cwd s job calls = s := entered_eq h hu sessionId work
  cases ht : touched cwd s job calls with
  | none =>
    rw [worker_untouched ht, hentered]
    exact Footprint.refl cwd u f s
  | some file =>
    have hfile : file = target cwd u.text f.text := touched_target ht
    obtain ⟨hname, hfilename⟩ := job.task_names
    cases hwork : job.work with
    | upload payload =>
      obtain ⟨ho, hrun⟩ := worker_upload ht hwork
      obtain ⟨_, _, hopen⟩ := openUpload_ok.mp ho
      obtain ⟨_, hdb⟩ := writeUpload_spec calls hopen
      rw [hname, hfilename, hentered] at hdb
      rw [hentered] at hrun hopen
      rw [hrun]
      refine ⟨fun p hp => ?_, fun v g hne => ?_, fun v hv => ?_⟩
      · rw [← hfile] at hp
        simp only [writeUpload]
        split
        · simp [hp]
        · rw [removeFile_written hopen]
          split
          · simp [hp]
          · simp [hp]
      · rw [hdb]
        split
        · exact ((dbAddOrUpdateFile_sound calls.metadata h.sound h.user f.text _).2 v g).trans
            (if_neg fun hc => hne hc.1)
        · rfl
      · rw [hdb]
        split
        · rwa [userId_dbAddOrUpdateFile _ h.sound.idle]
        · exact hv
    | delete =>
      obtain ⟨_, hrun⟩ := worker_delete ht hwork
      rw [hrun, hentered]
      refine ⟨fun p hp => ?_, fun v g hne => ?_, fun v hv => ?_⟩
      · rw [← hfile] at hp
        simp [hp]
      · exact ((dbRemoveFile_sound calls.metadata h.sound u.text f.text).2 v g).trans (if_neg fun hc => hne hc.1)
      · rwa [Server.setDb_db, userId_dbRemoveFile _ h.sound.idle]

theorem task_footprint (h : Serves cwd u f s) (hu : isPlain u.text = true)
    (sessionId : UInt64) (t : FileTask) :
    Footprint cwd u f s (workerWorker cwd t.calls s (t.task sessionId u f)).1 := by
  cases t with
  | upload payload result => exact job_footprint h hu sessionId (.upload payload)
  | delete => exact job_footprint h hu sessionId .delete
  | download =>
    have hsame : entered cwd s ⟨sessionId, u, f, .delete⟩ .succeeding = s := entered_eq h hu sessionId .delete
    simp only [entered] at hsame
    simp only [FileTask.task, FileTask.calls, workerWorker, hsame]
    exact Footprint.refl cwd u f s

theorem world_eq_store (hu : isPlain u.text = true) (hf : isPlain f.text = true) :
    s.world cwd u f = s.store cwd u.text f.text := by
  rw [Server.world, Server.store, target_plain cwd u.length_le f.length_le hu hf]

/-- A task on a file does to the store what it does to its file. -/
theorem file_serves (h : Serving cwd member s) (hmember : member u.text) (hu : isPlain u.text = true)
    (hf : isPlain f.text = true) (sessionId : UInt64) (t : FileTask) :
    Serving cwd member (workerWorker cwd t.calls s (t.task sessionId u f)).1 ∧
      (workerWorker cwd t.calls s (t.task sessionId u f)).1.store cwd =
        (s.store cwd).put u.text f.text (t.effect (s.store cwd u.text f.text)).1 ∧
      (workerWorker cwd t.calls s (t.task sessionId u f)).2 = (t.effect (s.store cwd u.text f.text)).2 := by
  have hstorage : t.calls.mkdirStorage = none := by cases t <;> rfl
  have huser : t.calls.mkdirUser = none := by cases t <;> rfl
  have htask : (t.task sessionId u f).username = u.text := by cases t <;> rfl
  have hserves := serves_enter h hmember hu hf hstorage huser
  have hserving := serving_enter h hmember hu hstorage huser
  have hstore := store_enter h hmember hu hstorage huser
  have heffect := worker_effect sessionId hserves hu hf t
  have hfoot := task_footprint hserves hu sessionId t
  have htarget := target_plain cwd u.length_le f.length_le hu hf
  rw [← worker_enter h hmember hu hstorage huser htask, ← hstore]
  set s₁ := s.enter cwd t.calls u
  set r := workerWorker cwd t.calls s₁ (t.task sessionId u f)
  have hother : ∀ v g, ¬ (v = u.text ∧ g = f.text) → g :: v :: storageDir cwd ≠ target cwd u.text f.text := by
    intro v g hne heq
    rw [htarget] at heq
    obtain ⟨rfl, hrest⟩ := List.cons.inj heq
    exact hne ⟨(List.cons.inj hrest).1, rfl⟩
  have hdir : ∀ p, p.length < (target cwd u.text f.text).length → r.1.fs.node p = s₁.fs.node p := by
    intro p hp
    refine hfoot.node p ?_
    rintro rfl
    exact Nat.lt_irrefl _ hp
  refine ⟨⟨?_, fun v hv => ?_, fun v g hv => ?_, heffect.serves.sound, fun v hv => ?_⟩, ?_, ?_⟩
  · rw [hdir _ (by rw [htarget, List.length_cons, List.length_cons]; omega)]
    exact hserving.storage
  · rw [hdir _ (by simp [htarget])]
    exact hserving.home v hv
  · by_cases hkey : v = u.text ∧ g = f.text
    · obtain ⟨rfl, rfl⟩ := hkey
      rw [← htarget]
      exact heffect.serves.file
    · rw [hfoot.node _ (hother v g hkey)]
      exact hserving.files v g hv
  · exact hfoot.users v (hserving.registered v hv)
  · funext v g
    by_cases hkey : v = u.text ∧ g = f.text
    · obtain ⟨rfl, rfl⟩ := hkey
      rw [Store.put_self, ← world_eq_store hu hf, heffect.world, world_eq_store hu hf]
    · rw [Store.put_of_ne _ _ hkey]
      simp only [Server.store, hfoot.node _ (hother v g hkey), hfoot.row v g hkey]
  · rw [heffect.response, world_eq_store hu hf]

/-- The loop of a listing fills the buffer with the names that it does not skip. -/
theorem listData_lists (names : List Bytes) : Lists (shown names) (listData names) ∧
    ((lines (shown names)).length ≤ 4086 → listData names = lines (shown names) ++ listEnd) := by
  obtain ⟨listed, hprefix, hlist, hlength, hmax⟩ := listNames_spec [] names (Nat.zero_le _)
  rw [List.nil_append] at hlist hlength
  have hdata := listData_eq hlist
  refine ⟨⟨listed, _, hprefix, fun p hp hlen => hmax p hp (by rwa [List.nil_append]), hdata, List.take_prefix _ _⟩, ?_⟩
  intro hfits
  have hroom : listBufferSize = 4096 := rfl
  have hend : listEnd.length = 9 := rfl
  have hall := hmax _ (List.prefix_refl _) (by rw [List.nil_append]; omega)
  rw [← List.IsPrefix.eq_of_length_le hprefix hall.length_le] at hfits ⊢
  rw [hdata, List.take_of_length_le (by omega)]

/-- A listing changes no file, and shows those of its user. -/
theorem list_serves (h : Serving cwd member s) (hmember : member u.text) (hu : isPlain u.text = true)
    (sessionId : UInt64) :
    let r := workerWorker cwd .succeeding s ⟨.list, sessionId, u.text, [], 0, none⟩
    Serving cwd member r.1 ∧ (s.store cwd).Serves ⟨sessionId, u, .list⟩ r.2 (r.1.store cwd) := by
  intro r
  have hcalls : Calls.succeeding.mkdirStorage = none ∧ Calls.succeeding.mkdirUser = none := ⟨rfl, rfl⟩
  have hserving := serving_enter h hmember hu hcalls.1 hcalls.2
  have hstore := store_enter h hmember hu hcalls.1 hcalls.2
  have hmade := makeDirs_made h hmember hu hcalls.1 hcalls.2
  have hfirst : r.1 = s.enter cwd .succeeding u := rfl
  have hname : isName (ascii "storage") = true := by decide
  have hpath : userPath u.text = [ascii "storage", u.text] := by rw [userPath_eq u.length_le, components_plain hu]
  have hwalk : (makeDirs cwd .succeeding u.text s.fs).walk cwd (userPath u.text) = .ok (u.text :: storageDir cwd) := by
    rw [hpath]
    refine Fs.walk_ok.mpr ⟨?_, fun p hp => ?_⟩
    · simp only [resolve, List.foldl_cons, List.foldl_nil, enter, hname, isName_of_isPlain hu, if_true]
      rfl
    · simp only [lookups, hname, isName_of_isPlain hu, if_true, List.mem_cons, List.not_mem_nil, or_false] at hp
      rw [hmade]
      rcases hp with rfl | rfl
      · exact if_pos (.inl rfl)
      · exact if_pos (.inr rfl)
  have hexists : userExists Calls.succeeding.userQuery s.db.tables u.text = true := by
    simp [userExists, Calls.succeeding, h.registered u.text hmember]
  set names := (makeDirs cwd .succeeding u.text s.fs).readdir (u.text :: storageDir cwd) with hnames
  have hopen : (makeDirs cwd .succeeding u.text s.fs).opendir cwd (userPath u.text) = .ok names := by
    rw [Fs.opendir, hwalk]
    rfl
  have hresponse : r.2 = ⟨.success, [], listData names⟩ := by
    change taskList cwd .succeeding (s.setFs (makeDirs cwd .succeeding u.text s.fs)) _ = _
    simp only [taskList, Server.setFs_db, Server.setFs_fs, hexists, hopen]
    simp [Calls.succeeding, attempt]
  obtain ⟨hlists, hwhole⟩ := listData_lists names
  refine ⟨hfirst ▸ hserving, ?_⟩
  rw [hfirst, hstore, hresponse]
  refine ⟨rfl, rfl, rfl, shown names, (Fs.nodup_readdir _ _).filter _, fun name => ?_, hlists, hwhole⟩
  rw [shown, List.mem_filter, hnames, Fs.mem_readdir, hmade, if_neg (entry_ne_dir _ _ _ _)]
  have hfile := h.files u.text name hmember
  cases hnode : s.fs.node (name :: u.text :: storageDir cwd) with
  | none => simp [Server.store, hnode]
  | some n =>
    cases n with
    | dir => exact absurd hnode hfile
    | file bytes => simp [Server.store, hnode, content]

/-- The workers refine the store. -/
theorem server_refines (cwd : Path) (member : Bytes → Prop) :
    Refines (serveRequest cwd) Store.Serves (Serving cwd member) (FileRequest.Allowed member) fun s => s.store cwd where
  keep := by
    rintro s ⟨sessionId, u, demand⟩ h ⟨hmember, hu, hdemand⟩
    cases demand with
    | file f t => exact (file_serves h hmember hu hdemand sessionId t).1
    | list => exact (list_serves h hmember hu sessionId).1
  meets := by
    rintro s ⟨sessionId, u, demand⟩ h ⟨hmember, hu, hdemand⟩
    cases demand with
    | file f t => exact (file_serves h hmember hu hdemand sessionId t).2
    | list => exact (list_serves h hmember hu sessionId).2

/-- Over every history the workers answer as the store does, and leave what it leaves. -/
theorem requests_meet_store (h : Serving cwd member s) {requests : List FileRequest}
    (hallowed : ∀ r ∈ requests, r.Allowed member) :
    Serving cwd member (serveAll (serveRequest cwd) s requests).1 ∧
      Meets Store.Serves (s.store cwd) (serveAll (serveRequest cwd) s requests).2
        ((serveAll (serveRequest cwd) s requests).1.store cwd) :=
  (server_refines cwd member).serveAll h hallowed

/-- A request that leaves the content of this file as it is. -/
def FileRequest.Spares (u : Username) (f : Filename) (r : FileRequest) : Prop :=
  ∀ g t, r.demand = .file g t → r.username.text = u.text → g.text = f.text → t = .download

theorem spared {r : FileRequest} (h : r.Spares u f) {store store' : Store} {response : Response}
    (hserves : store.Serves r response store') : store' u.text f.text = store u.text f.text := by
  obtain ⟨sessionId, v, demand⟩ := r
  cases demand with
  | list => rw [hserves.1]
  | file g t =>
    rw [hserves.1]
    by_cases hkey : u.text = v.text ∧ f.text = g.text
    · obtain ⟨hu, hf⟩ := hkey
      obtain rfl := h g t rfl hu.symm hf.symm
      rw [hu, hf, Store.put_self]
      simp only [FileTask.effect]
      split
      · rfl
      · rfl
    · exact Store.put_of_ne _ _ hkey

/-- A download answers with the bytes of the last upload that was complete, whatever is asked of
other files in between. -/
theorem download_after_upload (h : Serving cwd member s) {payload : Payload} {result : WriteResult}
    (hwrote : result.calls.wrote payload.bytes = true) {before between : List FileRequest} {first last : UInt64}
    (hbefore : ∀ r ∈ before, r.Allowed member) (hbetween : ∀ r ∈ between, r.Allowed member ∧ r.Spares u f)
    (hmember : member u.text) (hu : isPlain u.text = true) (hf : isPlain f.text = true) :
    (serveAll (serveRequest cwd) s
      (before ++ (⟨first, u, .file f (.upload payload result)⟩ : FileRequest) :: (between ++ [⟨last, u, .file f .download⟩]))).2.getLast? =
        some (⟨last, u, .file f .download⟩, downloadOk payload.bytes) := by
  obtain ⟨hserving, _⟩ := requests_meet_store h hbefore
  obtain ⟨huploaded, hstore, _⟩ := file_serves hserving hmember hu hf first (.upload payload result)
  set s₁ := (workerWorker cwd (FileTask.calls (.upload payload result)) (serveAll (serveRequest cwd) s before).1
    (FileTask.task (.upload payload result) first u f)).1
  have hcontent : (s₁.store cwd u.text f.text).file = some payload.bytes := by
    rw [hstore, Store.put_self]
    simp only [FileTask.effect, hwrote, if_true]
    rw [stored_of_wrote hwrote]
  obtain ⟨hquiet, hmeets⟩ := requests_meet_store huploaded fun r hr => (hbetween r hr).1
  have hkept : ((serveAll (serveRequest cwd) s₁ between).1.store cwd u.text f.text).file = some payload.bytes := by
    refine hmeets.preserves (P := fun store => (store u.text f.text).file = some payload.bytes) ?_ hcontent
    intro r response store store' hmem hserves hstored
    rw [spared (hbetween r (mem_serveAll hmem)).2 hserves, hstored]
  obtain ⟨_, _, hanswer⟩ := file_serves hquiet hmember hu hf last .download
  have heffect : (FileTask.effect .download ((serveAll (serveRequest cwd) s₁ between).1.store cwd u.text f.text)).2 =
      downloadOk payload.bytes := by
    simp only [FileTask.effect, hkept]
  rw [serveAll_append, List.getLast?_append]
  simp only [serveAll]
  rw [serveAll_append]
  change Option.or (List.getLast? (_ :: (_ ++ [(_, (serveRequest cwd (serveAll (serveRequest cwd) s₁ between).1 _).2)]))) _ = _
  rw [← List.cons_append, List.getLast?_append]
  simp only [List.getLast?_singleton, Option.some_or]
  rw [← heffect, ← hanswer]
  rfl

end

theorem serving_fresh : Serving [] (fun name => name = nameAlice.text ∨ name = nameBob.text) freshServer where
  storage := .inl rfl
  home _ _ := .inl rfl
  files _ _ _ := by simp [freshServer, Fs.node]
  sound := ⟨rfl, accounts_accounted, by decide⟩
  registered := by
    rintro name (rfl | rfl)
    · decide
    · decide

def bytesAbc : Payload := ⟨ascii "abc", length_abc⟩

/-- Both users have a file of the same name. -/
def twoUsers : List FileRequest :=
  [⟨1, nameAlice, .file report (.upload bytesAbc ⟨none, false⟩)⟩, ⟨2, nameBob, .file report (.upload bytesAbc ⟨some 1, false⟩)⟩,
    ⟨2, nameBob, .list⟩, ⟨2, nameBob, .file report .delete⟩, ⟨1, nameAlice, .list⟩]

theorem twoUsers_allowed (r : FileRequest) (hr : r ∈ twoUsers) :
    r.Allowed fun name => name = nameAlice.text ∨ name = nameBob.text := by
  simp only [twoUsers, List.mem_cons, List.not_mem_nil, or_false] at hr
  rcases hr with rfl | rfl | rfl | rfl | rfl
  · exact ⟨.inl rfl, by decide, by decide⟩
  · exact ⟨.inr rfl, by decide, by decide⟩
  · exact ⟨.inr rfl, by decide, trivial⟩
  · exact ⟨.inr rfl, by decide, by decide⟩
  · exact ⟨.inl rfl, by decide, trivial⟩

theorem requests_meet_store_twoUsers :
    Serving [] (fun name => name = nameAlice.text ∨ name = nameBob.text)
        (serveAll (serveRequest []) freshServer twoUsers).1 ∧
      Meets Store.Serves (freshServer.store []) (serveAll (serveRequest []) freshServer twoUsers).2
        ((serveAll (serveRequest []) freshServer twoUsers).1.store []) :=
  requests_meet_store serving_fresh twoUsers_allowed

theorem download_after_upload_alice :
    (serveAll (serveRequest []) freshServer
      ([] ++ (⟨1, nameAlice, .file report (.upload bytesAbc ⟨none, false⟩)⟩ : FileRequest) ::
        ([⟨2, nameBob, .file report .delete⟩] ++ [⟨3, nameAlice, .file report .download⟩]))).2.getLast? =
      some (⟨3, nameAlice, .file report .download⟩, downloadOk bytesAbc.bytes) := by
  refine download_after_upload serving_fresh (by decide) (by simp) (fun r hr => ?_) (.inl rfl) (by decide) (by decide)
  obtain rfl := List.mem_singleton.mp hr
  refine ⟨⟨.inr rfl, by decide, by decide⟩, fun g t _ hname _ => ?_⟩
  exact absurd hname (by decide)

end Stash.Threads
