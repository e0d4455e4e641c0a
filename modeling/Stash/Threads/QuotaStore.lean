import Stash.Auth.Charges
import Stash.Threads.FileStore
import Stash.Threads.Segmentation

/-! The store with the quotas of its users, and what it answers to the commands of one of them. -/
namespace Stash.Threads
open Foundation.CText Foundation.Paths Foundation.FileTree Foundation.Traces Auth

/-- The files, and for every user the bytes that are charged and the most that may be. -/
structure Drive where
  store : Store
  charged : Bytes → Nat
  limit : Bytes → Nat

def Server.drive (s : Server) (cwd : Path) : Drive where
  store := s.store cwd
  charged username := (s.db.tables.quotaUsed username).getD 0
  limit username := ((s.db.tables.user username).map User.quotaLimit).getD 0

/-- The file of the user becomes `w`, and its user is charged for the new row in place of the old. -/
structure Drive.Becomes (d : Drive) (username filename : Bytes) (w : World) (d' : Drive) : Prop where
  store : d'.store = d.store.put username filename w
  used : d'.charged username + (d.store username filename).row.getD 0 = d.charged username + w.row.getD 0
  others : ∀ other, other ≠ username → d'.charged other = d.charged other
  limits : d'.limit = d.limit

/-- What a user is answered to a command, and what the command leaves. -/
def Drive.Answers (username : Username) (d : Drive) (r : Request) (reply : Bytes) (d' : Drive) : Prop :=
  match r with
  | .upload header payload _ =>
    if d.charged username.text + payload.length ≤ d.limit username.text then
      reply = ascii "UPLOAD OK\n" ∧
        d.Becomes username.text header.filename.text ⟨some payload, some payload.length⟩ d'
    else reply = ascii "UPLOAD ERROR: Quota exceeded\n" ∧ d' = d
  | .download filename =>
    d' = d ∧ match (d.store username.text filename.text).file with
      | some data => reply = data ++ ascii "\nDOWNLOAD OK\n"
      | none => reply = ascii "DOWNLOAD ERROR: File not found\n"
  | .delete filename =>
    match (d.store username.text filename.text).file with
    | some _ => reply = ascii "DELETE OK\n" ∧ d.Becomes username.text filename.text ⟨none, none⟩ d'
    | none => reply = ascii "DELETE ERROR: File not found\n" ∧ d' = d
  | .list => d' = d ∧ ∃ names : List Bytes, names.Nodup ∧
      (∀ name, name ∈ names ↔ (d.store username.text name).file.isSome ∧ skipped name = false) ∧
      Lists names reply ∧ ((lines names).length ≤ 4086 → reply = lines names ++ listEnd)
  | .quit => reply = ascii "Goodbye!\n" ∧ d' = d

section
variable {cwd : Path} {member : Bytes → Prop} {s : Server} {u : Username} {f : Filename} {task : Task} {calls : Calls}

/-- A worker charges the user of its task for the file of its task, and nobody else. -/
theorem worker_charge (h : s.db.Sound) :
    s.db.tables.Charge (workerWorker cwd calls s task).1.db.tables task.username task.filename := by
  unfold workerWorker
  dsimp only
  split
  · unfold taskUpload
    split
    · exact .refl _ _ _
    · unfold writeUpload
      dsimp only
      split
      · exact charge_added h _ _ _ _
      · unfold removeFile
        split
        · exact .refl _ _ _
        · exact .refl _ _ _
  · exact .refl _ _ _
  · unfold taskDelete
    split
    · exact .refl _ _ _
    · exact charge_removed h _ _ _
  · exact .refl _ _ _

theorem Drive.Becomes.same {d d' : Drive} {username filename : Bytes}
    (h : d.Becomes username filename (d.store username filename) d') : d' = d := by
  obtain ⟨store, charged, limit⟩ := d
  obtain ⟨store', charged', limit'⟩ := d'
  obtain rfl : store' = store := h.store.trans (Store.put_same _ _ _)
  obtain rfl : limit' = limit := h.limits
  obtain rfl : charged' = charged := by
    funext other
    by_cases hother : other = username
    · subst hother
      exact Nat.add_right_cancel h.used
    · exact h.others other hother
  rfl

/-- What is charged and what is stored changes together. -/
theorem drive_becomes {s' : Server} {username filename : Bytes} {w : World}
    (hcharge : s.db.tables.Charge s'.db.tables username filename)
    (hstore : s'.store cwd = (s.store cwd).put username filename w) :
    (s.drive cwd).Becomes username filename w (s'.drive cwd) where
  store := hstore
  used := by
    have hrow : w.row = s'.db.tables.fileSize username filename := by
      have hself := congrFun (congrFun hstore username) filename
      rw [Store.put_self] at hself
      rw [← hself]
      rfl
    rw [hrow]
    exact hcharge.used
  others other hother := congrArg (fun used => used.getD 0) (hcharge.others other hother)
  limits := funext fun other => congrArg (fun limit => limit.getD 0) (hcharge.limits other)

/-- A task on a file does to the drive what it does to its file. -/
theorem file_drive (h : Serving cwd member s) (hmember : member u.text) (hu : isPlain u.text = true)
    (hf : isPlain f.text = true) (sessionId : UInt64) (t : FileTask) :
    let r := workerWorker cwd t.calls s (t.task sessionId u f)
    Serving cwd member r.1 ∧
      (s.drive cwd).Becomes u.text f.text (t.effect (s.store cwd u.text f.text)).1 (r.1.drive cwd) ∧
      r.2 = (t.effect (s.store cwd u.text f.text)).2 := by
  obtain ⟨hserving, hstore, hresponse⟩ := file_serves h hmember hu hf sessionId t
  have hcharge : s.db.tables.Charge (workerWorker cwd t.calls s (t.task sessionId u f)).1.db.tables _ _ :=
    worker_charge h.sound
  have hnames : (t.task sessionId u f).username = u.text ∧ (t.task sessionId u f).filename = f.text := by
    cases t <;> exact ⟨rfl, rfl⟩
  rw [hnames.1, hnames.2] at hcharge
  exact ⟨hserving, drive_becomes hcharge hstore, hresponse⟩

/-- A listing leaves the drive as it is. -/
theorem list_drive (h : Serving cwd member s) (hmember : member u.text) (hu : isPlain u.text = true) (sessionId : UInt64) :
    (workerWorker cwd .succeeding s ⟨.list, sessionId, u.text, [], 0, none⟩).1.drive cwd = s.drive cwd := by
  obtain ⟨_, hserves⟩ := list_serves h hmember hu sessionId
  have hcharge : s.db.tables.Charge
      (workerWorker cwd .succeeding s ⟨.list, sessionId, u.text, [], 0, none⟩).1.db.tables _ _ := worker_charge h.sound
  exact (drive_becomes hcharge (hserves.1.trans (Store.put_same _ _ _).symm)).same

end

end Stash.Threads
