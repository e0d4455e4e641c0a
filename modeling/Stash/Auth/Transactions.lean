import Stash.Auth.FileRows
import Stash.Foundation.Runs

/-! The two metadata transactions call by call: the mutex, the statements that are prepared
and finalized, and the end of the transaction on every way out. -/
namespace Stash.Auth.Tables
open Foundation.CText
variable {t : Tables} {id : Int} {size : Nat} {filename : Bytes}

/-- The quota of a user is what its rows add up to. -/
def Charged (t : Tables) (username : Bytes) : Prop :=
  t.quotaUsed username = (t.userId username).map t.storedBytes

/-- What the row of a user says about its quota after one id has been charged. -/
theorem quotaUsed_updateQuota {k : Int} {username : Bytes} (hid : t.userId username = some id) :
    (t.updateQuota k).quotaUsed username =
      if id = k then some (t.storedBytes k) else t.quotaUsed username := by
  obtain ⟨user, hfind, rfl⟩ := Option.map_eq_some_iff.mp hid
  have hcharged : ((t.updateQuota k).users.find? fun user => user.username = username) =
      some (if user.id = k then { user with quotaUsed := t.storedBytes k } else user) := by
    rw [updateQuota, List.find?_map]
    have hname : ((fun user : User => decide (user.username = username)) ∘
        fun user => if user.id = k then { user with quotaUsed := t.storedBytes k } else user) =
        fun user => decide (user.username = username) := by
      funext user
      simp only [Function.comp]
      split <;> rfl
    rw [hname, hfind]
    rfl
  rw [quotaUsed, hcharged, quotaUsed, hfind]
  split <;> rfl

theorem Charged.updated {k : Int} {username : Bytes} (hid : t.userId username = some id) :
    (t.updateQuota k).Charged username ↔ k = id ∨ t.Charged username := by
  rw [Charged, quotaUsed_updateQuota hid, userId_updateQuota, hid, Charged, hid]
  by_cases hk : k = id
  · simp [hk]
  · rw [if_neg (Ne.symm hk), or_iff_right hk]
    rfl

theorem fileSize_upsertFile {k : Int} {username : Bytes} (hid : t.userId username = some id) :
    (t.upsertFile k filename size).fileSize username filename =
      if k = id then some size else t.fileSize username filename := by
  rw [fileSize, fileSize, userId_upsertFile, hid, Option.bind_some, Option.bind_some, upsertFile]
  have hkey (row : FileRow) : (if row.userId = k ∧ row.filename = filename then { row with size := size }
      else row).userId = row.userId ∧ (if row.userId = k ∧ row.filename = filename then
        { row with size := size } else row).filename = row.filename := by
    split <;> exact ⟨rfl, rfl⟩
  by_cases hany : (t.files.any fun row => row.userId = k ∧ row.filename = filename) = true
  · simp only [hany, if_true, List.find?_map, Function.comp_def, hkey]
    by_cases hk : k = id
    · subst hk
      obtain ⟨row, hmem, hrow⟩ := List.any_eq_true.mp hany
      cases hfind : t.files.find? fun row => row.userId = k ∧ row.filename = filename with
      | none => exact absurd hrow (List.find?_eq_none.mp hfind row hmem)
      | some found =>
        have hfound : found.userId = k ∧ found.filename = filename := by simpa using List.find?_some hfind
        simp [hfound]
    · rw [if_neg hk]
      cases hfind : t.files.find? fun row => row.userId = id ∧ row.filename = filename with
      | none => rfl
      | some found =>
        have hfound : found.userId = id ∧ found.filename = filename := by simpa using List.find?_some hfind
        simp [hfound, Ne.symm hk]
  · simp only [hany, Bool.false_eq_true, if_false, List.find?_append]
    by_cases hk : k = id
    · subst hk
      have hnone : (t.files.find? fun row => row.userId = k ∧ row.filename = filename) = none :=
        List.find?_eq_none.mpr fun row hmem hrow => hany (List.any_eq_true.mpr ⟨row, hmem, hrow⟩)
      rw [hnone, Option.none_or, if_pos rfl]
      simp
    · simp [hk]

theorem fileSize_deleteFile {k : Int} {username : Bytes} (hid : t.userId username = some id) :
    (t.deleteFile k filename).fileSize username filename =
      if k = id then none else t.fileSize username filename := by
  rw [fileSize, fileSize, userId_deleteFile, hid, Option.bind_some, Option.bind_some, deleteFile,
    List.find?_filter]
  by_cases hk : k = id
  · subst hk
    rw [if_pos rfl, Option.map_eq_none_iff, List.find?_eq_none]
    intro row _
    simp [imp_iff_not_or]
  · rw [if_neg hk]
    congr 2
    funext row
    by_cases hrow : row.userId = id
    · simp [hrow, Ne.symm hk]
    · simp [hrow]

/-- A recorded file is seen by its user when it went under the user's own id, or had been there. -/
theorem recorded_visible {k : Int} {username : Bytes} (hid : t.userId username = some id) :
    (((t.upsertFile k filename size).updateQuota k).fileSize username filename = some size ∧
        ((t.upsertFile k filename size).updateQuota k).Charged username) ↔
      k = id ∨ (t.fileSize username filename = some size ∧ t.Charged username) := by
  rw [fileSize_updateQuota, fileSize_upsertFile hid, Charged.updated (t := t.upsertFile k filename size) hid]
  by_cases hk : k = id
  · simp [hk]
  · have hstored : (t.upsertFile k filename size).storedBytes id = t.storedBytes id :=
      storedBytes_upsertFile (Ne.symm hk)
    simp only [hk, if_false, false_or, Charged, userId_upsertFile, hid, Option.map_some, hstored]
    rfl

theorem removed_visible {k : Int} {username : Bytes} (hid : t.userId username = some id) :
    (((t.deleteFile k filename).updateQuota k).fileSize username filename = none ∧
        ((t.deleteFile k filename).updateQuota k).Charged username) ↔
      k = id ∨ (t.fileSize username filename = none ∧ t.Charged username) := by
  rw [fileSize_updateQuota, fileSize_deleteFile hid, Charged.updated (t := t.deleteFile k filename) hid]
  by_cases hk : k = id
  · simp [hk]
  · have hstored : (t.deleteFile k filename).storedBytes id = t.storedBytes id :=
      storedBytes_deleteFile (Ne.symm hk)
    simp only [hk, if_false, false_or, Charged, userId_deleteFile, hid, Option.map_some, hstored]
    rfl

end Stash.Auth.Tables

namespace Stash.Auth.Statements
open Foundation.CText Foundation.Runs

/-- The database as a metadata call finds it behind `db_mutex`; `legal` is lost with the first
call that comes out of order. -/
structure Handle where
  connection : Connection
  locked : Bool
  prepared : Bool
  legal : Bool
  deriving DecidableEq, Repr

abbrev Db := StateM Handle

namespace Handle

/-- Nobody is in a call. -/
def idle (t : Tables) : Handle := ⟨⟨t, none⟩, false, false, true⟩

def require (h : Handle) (ok : Bool) : Handle := { h with legal := h.legal && ok }

end Handle

def mutexLock : Db Unit := modify fun h => { h.require (!h.locked) with locked := true }

/-- A statement that is still prepared here is never finalized. -/
def mutexUnlock : Db Unit := modify fun h => { h.require (h.locked && !h.prepared) with locked := false }

/-- `BEGIN TRANSACTION`, which fails in a transaction. -/
def execBegin (fails : Bool) : Db Bool := modifyGet fun h =>
  if fails || h.connection.saved.isSome then (false, h.require h.locked)
  else (true, { h.require h.locked with connection := h.connection.beginTransaction })

def execCommit (fails : Bool) : Db Bool := modifyGet fun h =>
  if fails || h.connection.saved.isNone then (false, h.require h.locked)
  else (true, { h.require h.locked with connection := h.connection.commit })

def execRollback : Db Unit := modify fun h =>
  { h.require (h.locked && h.connection.saved.isSome) with connection := h.connection.rollback }

def prepare (fails : Bool) : Db Bool := modifyGet fun h =>
  (!fails, { h.require (h.locked && !h.prepared) with prepared := !fails })

/-- `sqlite3_step` of a query: its first row. -/
def stepRow {α : Type} (fails : Bool) (query : Tables → Option α) : Db (Option α) := modifyGet fun h =>
  (if fails then none else query h.connection.tables, h.require (h.locked && h.prepared))

/-- `sqlite3_step` of a change; the value is what the code reads about it afterwards. -/
def stepDone {α : Type} (fails : Bool) (value : Tables → α) (change : Tables → Tables) : Db (Option α) :=
  modifyGet fun h =>
    if fails then (none, h.require (h.locked && h.prepared))
    else (some (value h.connection.tables),
      { h.require (h.locked && h.prepared) with connection := h.connection.exec change })

def finalize : Db Unit := modify fun h => { h.require (h.locked && h.prepared) with prepared := false }

def dbAddOrUpdateFile (fault : DbFault) (username filename : Bytes) (size : Nat) : Db Int := do
  mutexLock
  if !(← execBegin (fault = .begin)) then
    mutexUnlock
    return -1
  if !(← prepare (fault = .prepareId)) then
    execRollback
    mutexUnlock
    return -1
  let some id ← stepRow (fault = .stepId) fun t => t.userId username
    | finalize
      execRollback
      mutexUnlock
      return -2
  let userId := columnInt id
  finalize
  if !(← prepare (fault = .prepareChange)) then
    execRollback
    mutexUnlock
    return -1
  let upserted ← stepDone (fault = .stepChange) (fun _ => ()) fun t => t.upsertFile userId filename size
  finalize
  if upserted.isNone then
    execRollback
    mutexUnlock
    return -1
  if !(← prepare (fault = .prepareQuota)) then
    execRollback
    mutexUnlock
    return -1
  let updated ← stepDone (fault = .stepQuota) (fun _ => ()) fun t => t.updateQuota userId
  finalize
  if updated.isNone then
    execRollback
    mutexUnlock
    return -1
  if !(← execCommit (fault = .commit)) then
    execRollback
    mutexUnlock
    return -1
  mutexUnlock
  return 0

def dbRemoveFile (fault : DbFault) (username filename : Bytes) : Db Int := do
  mutexLock
  if !(← execBegin (fault = .begin)) then
    mutexUnlock
    return -1
  if !(← prepare (fault = .prepareId)) then
    execRollback
    mutexUnlock
    return -1
  let some id ← stepRow (fault = .stepId) fun t => t.userId username
    | finalize
      execRollback
      mutexUnlock
      return -2
  let userId := columnInt id
  finalize
  if !(← prepare (fault = .prepareChange)) then
    execRollback
    mutexUnlock
    return -1
  let deleted ← stepDone (fault = .stepChange) (fun t => t.changes userId filename)
    fun t => t.deleteFile userId filename
  finalize
  let some changes := deleted
    | execRollback
      mutexUnlock
      return -1
  if changes = 0 then
    execRollback
    mutexUnlock
    return -3
  if !(← prepare (fault = .prepareQuota)) then
    execRollback
    mutexUnlock
    return -1
  let updated ← stepDone (fault = .stepQuota) (fun _ => ()) fun t => t.updateQuota userId
  finalize
  if updated.isNone then
    execRollback
    mutexUnlock
    return -1
  if !(← execCommit (fault = .commit)) then
    execRollback
    mutexUnlock
    return -1
  mutexUnlock
  return 0

section
variable (fault : DbFault) (t : Tables) (username filename : Bytes) (size : Nat)

/-- Call by call, the result and the tables are those of the transaction as a whole, and the
handle is idle again. -/
theorem run_dbAddOrUpdateFile :
    (dbAddOrUpdateFile fault username filename size).run (.idle t) =
      pure ((Auth.dbAddOrUpdateFile fault ⟨t, none⟩ username filename size).2,
        .idle (Auth.dbAddOrUpdateFile fault ⟨t, none⟩ username filename size).1.tables) := by
  -- One case for each way out: the call that fails, or none.
  cases hid : t.userId username with
  | none =>
    cases fault <;>
      simp [dbAddOrUpdateFile, Auth.dbAddOrUpdateFile, mutexLock, mutexUnlock, execBegin, execRollback,
        prepare, stepRow, finalize, Handle.idle, Handle.require, Connection.beginTransaction,
        Connection.rollback, hid]
  | some id =>
    cases fault <;>
      simp [dbAddOrUpdateFile, Auth.dbAddOrUpdateFile, mutexLock, mutexUnlock, execBegin, execRollback,
        execCommit, prepare, stepRow, stepDone, finalize, Handle.idle, Handle.require, Connection.exec,
        Connection.beginTransaction, Connection.rollback, Connection.commit, hid]

theorem run_dbRemoveFile :
    (dbRemoveFile fault username filename).run (.idle t) =
      pure ((Auth.dbRemoveFile fault ⟨t, none⟩ username filename).2,
        .idle (Auth.dbRemoveFile fault ⟨t, none⟩ username filename).1.tables) := by
  cases hid : t.userId username with
  | none =>
    cases fault <;>
      simp [dbRemoveFile, Auth.dbRemoveFile, mutexLock, mutexUnlock, execBegin, execRollback, prepare,
        stepRow, finalize, Handle.idle, Handle.require, Connection.beginTransaction,
        Connection.rollback, hid]
  | some id =>
    by_cases hcount : t.changes (columnInt id) filename = 0
    · cases fault <;>
        simp [dbRemoveFile, Auth.dbRemoveFile, mutexLock, mutexUnlock, execBegin, execRollback, prepare,
          stepRow, stepDone, finalize, Handle.idle, Handle.require, Connection.exec,
          Connection.beginTransaction, Connection.rollback, hid, hcount]
    · cases fault <;>
        simp [dbRemoveFile, Auth.dbRemoveFile, mutexLock, mutexUnlock, execBegin, execRollback, execCommit,
          prepare, stepRow, stepDone, finalize, Handle.idle, Handle.require, Connection.exec,
          Connection.beginTransaction, Connection.rollback, Connection.commit, hid, hcount]

end

/-- A call of the metadata layer that changes files and quota together. -/
inductive Call where
  | add (username filename : Bytes) (size : Nat)
  | remove (username filename : Bytes)
  deriving DecidableEq, Repr

namespace Call

def perform (fault : DbFault) : Call → Db Int
  | .add username filename size => dbAddOrUpdateFile fault username filename size
  | .remove username filename => dbRemoveFile fault username filename

/-- The row change and the quota change of the call, as its user sees them. -/
def Visible (t : Tables) : Call → Prop
  | .add username filename size => t.fileSize username filename = some size ∧ t.Charged username
  | .remove username filename => t.fileSize username filename = none ∧ t.Charged username

/-- No statement of the call fails: the user is there, and so is the row that is to go. -/
def Carried (fault : DbFault) (t : Tables) (id : Int) : Call → Prop
  | .add username _ _ => fault = .none ∧ t.userId username = some id
  | .remove username filename => fault = .none ∧ t.userId username = some id ∧
      ∃ row ∈ t.files, row.userId = columnInt id ∧ row.filename = filename

end Call

/-- The result of a call on an idle handle is nonzero and nothing has changed, or zero and
all of it has; in both cases the handle is idle. -/
structure AllOrNothing (t : Tables) (call : Call) (result : Int × Handle) : Prop where
  nothing : result.1 ≠ 0 → result.2.connection.tables = t
  all : result.1 = 0 → call.Visible result.2.connection.tables
  idle : result.2 = .idle result.2.connection.tables

private theorem allOrNothing_zero {t t' : Tables} {call : Call} {result : Int} (h : result = 0) :
    AllOrNothing t call (pure (result, .idle t') : Id (Int × Handle)) ↔ call.Visible t' :=
  ⟨fun hall => hall.all h, fun hvisible => ⟨fun hne => absurd h hne, fun _ => hvisible, rfl⟩⟩

private theorem allOrNothing_nonzero {t t' : Tables} {call : Call} {result : Int} (h : result ≠ 0)
    (hsame : t' = t) : AllOrNothing t call (pure (result, .idle t') : Id (Int × Handle)) :=
  ⟨fun _ => hsame, fun hzero => absurd hzero h, rfl⟩

/-- All or nothing holds exactly of the calls that fail, whose user has an id that an `int`
holds, or whose change had been visible before. -/
theorem all_or_nothing_iff (fault : DbFault) (t : Tables) (call : Call) :
    AllOrNothing t call ((call.perform fault).run (.idle t)) ↔
      ∀ id, call.Carried fault t id → columnInt id = id ∨ call.Visible t := by
  cases call with
  | add username filename size =>
    simp only [Call.perform, run_dbAddOrUpdateFile, Call.Carried]
    rcases dbAddOrUpdateFile_spec fault (show (⟨t, none⟩ : Connection).saved = none from rfl) username filename size with
      ⟨id, hfault, hid, hdone⟩ | ⟨hfail, hsame, hresult⟩
    · rw [hdone]
      refine (allOrNothing_zero rfl).trans ((Tables.recorded_visible hid).trans ?_)
      constructor
      · rintro hvisible other ⟨_, hother⟩
        rwa [← Option.some.inj (hid.symm.trans hother)]
      · exact fun h => h id ⟨hfault, hid⟩
    · refine iff_of_true (allOrNothing_nonzero hresult (by rw [hsame])) fun id hcarried => ?_
      have hnone := hfail.resolve_left fun hne => hne hcarried.1
      cases hnone.symm.trans hcarried.2
  | remove username filename =>
    simp only [Call.perform, run_dbRemoveFile, Call.Carried]
    rcases dbRemoveFile_spec fault (show (⟨t, none⟩ : Connection).saved = none from rfl) username filename with
      ⟨id, hfault, hid, hrow, hdone⟩ | ⟨hfail, hsame, hresult⟩
    · rw [hdone]
      refine (allOrNothing_zero rfl).trans ((Tables.removed_visible hid).trans ?_)
      constructor
      · rintro hvisible other ⟨_, hother, _⟩
        rwa [← Option.some.inj (hid.symm.trans hother)]
      · exact fun h => h id ⟨hfault, hid, hrow⟩
    · refine iff_of_true (allOrNothing_nonzero hresult (by rw [hsame])) fun id hcarried => ?_
      obtain ⟨hfault, hid, row, hmem, hkey⟩ := hcarried
      exact absurd hkey (hfail.resolve_left (fun hne => hne hfault) id hid row hmem)

def wideAccount : Tables := ⟨[⟨2147483648, ascii "alice", [], 0, 104857600⟩], []⟩

def wideUpload : Call := .add (ascii "alice") (ascii "report") 3

/-- The call returns zero and the user has no such file. -/
theorem wide_id_hides_row :
    ((wideUpload.perform .none).run (.idle wideAccount)).1 = 0 ∧
      ((wideUpload.perform .none).run (.idle wideAccount)).2.connection.tables.fileSize
        (ascii "alice") (ascii "report") = none ∧
      ¬ AllOrNothing wideAccount wideUpload ((wideUpload.perform .none).run (.idle wideAccount)) := by
  have hzero : ((wideUpload.perform .none).run (.idle wideAccount)).1 = 0 := by decide
  have hnone : ((wideUpload.perform .none).run (.idle wideAccount)).2.connection.tables.fileSize
      (ascii "alice") (ascii "report") = none := by decide
  refine ⟨hzero, hnone, fun hall => ?_⟩
  have hvisible := (hall.all hzero).1
  rw [hnone] at hvisible
  cases hvisible

/-- One call after the other, each with its own fault. -/
def step (h : Handle) (a : DbFault × Call) : Option Handle := some ((a.2.perform a.1).run h).2

theorem perform_idle (fault : DbFault) (t : Tables) (call : Call) :
    ∃ t', ((call.perform fault).run (.idle t)).2 = .idle t' := by
  cases call with
  | add username filename size =>
    rw [Call.perform, run_dbAddOrUpdateFile]
    exact ⟨_, rfl⟩
  | remove username filename =>
    rw [Call.perform, run_dbRemoveFile]
    exact ⟨_, rfl⟩

/-- Every call of a run starts from a connection without a transaction, with the mutex free. -/
theorem always_idle (t : Tables) (calls : List (DbFault × Call)) :
    Always step (fun h => ∃ t', h = .idle t') (.idle t) calls := by
  refine always_of_step ?_ calls ⟨t, rfl⟩
  rintro h ⟨fault, call⟩ next ⟨t', rfl⟩ hstep
  obtain rfl := Option.some.inj hstep
  exact perform_idle fault t' call

end Stash.Auth.Statements
