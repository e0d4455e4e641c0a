import Mathlib.Algebra.Group.Int.Defs
import Mathlib.Data.List.Nodup
import Stash.Foundation.CText

/-! The metadata database: the tables of users and files, the transaction in which a file
is recorded or removed, and the point at which a statement of it may fail. -/
namespace Stash.Auth
open Foundation.CText

structure User where
  id : Int
  username : Bytes
  passwordHash : Bytes
  quotaUsed : Nat
  quotaLimit : Nat
  deriving DecidableEq, Repr

structure FileRow where
  userId : Int
  filename : Bytes
  size : Nat
  deriving DecidableEq, Repr

structure Tables where
  users : List User
  files : List FileRow
  deriving DecidableEq, Repr

/-- The connection: the tables as they stand and, in a transaction, as they were before it. -/
structure Connection where
  tables : Tables
  saved : Option Tables
  deriving DecidableEq, Repr

/-- The first call of a transaction that does not succeed. -/
inductive DbFault where
  | none
  | begin
  | prepareId
  | stepId
  | prepareChange
  | stepChange
  | prepareQuota
  | stepQuota
  | commit
  deriving DecidableEq, Repr

namespace Connection

def beginTransaction (c : Connection) : Connection := { c with saved := some c.tables }

def rollback (c : Connection) : Connection :=
  match c.saved with
  | some tables => ⟨tables, none⟩
  | none => c

def commit (c : Connection) : Connection := { c with saved := none }

def exec (c : Connection) (change : Tables → Tables) : Connection :=
  { c with tables := change c.tables }

end Connection

namespace Tables

/-- `SELECT id FROM users WHERE username = ?` -/
def userId (t : Tables) (username : Bytes) : Option Int :=
  (t.users.find? fun user => user.username = username).map User.id

/-- `INSERT INTO files .. ON CONFLICT(user_id, filename) DO UPDATE SET size = excluded.size` -/
def upsertFile (t : Tables) (userId : Int) (filename : Bytes) (size : Nat) : Tables :=
  { t with files :=
      if t.files.any fun row => row.userId = userId ∧ row.filename = filename then
        t.files.map fun row =>
          if row.userId = userId ∧ row.filename = filename then { row with size := size } else row
      else t.files ++ [⟨userId, filename, size⟩] }

/-- `DELETE FROM files WHERE user_id = ? AND filename = ?` -/
def deleteFile (t : Tables) (userId : Int) (filename : Bytes) : Tables :=
  { t with files := t.files.filter fun row => ¬ (row.userId = userId ∧ row.filename = filename) }

/-- `sqlite3_changes` after that statement. -/
def changes (t : Tables) (userId : Int) (filename : Bytes) : Nat :=
  t.files.countP fun row => row.userId = userId ∧ row.filename = filename

/-- `SELECT COALESCE(SUM(size), 0) FROM files WHERE user_id = ?` -/
def storedBytes (t : Tables) (userId : Int) : Nat :=
  ((t.files.filter fun row => row.userId = userId).map FileRow.size).sum

/-- `UPDATE users SET quota_used = (..) WHERE id = ?` -/
def updateQuota (t : Tables) (userId : Int) : Tables :=
  { t with users := t.users.map fun user =>
      if user.id = userId then { user with quotaUsed := t.storedBytes userId } else user }

/-- The row that the metadata operations address, if there is one. -/
def fileSize (t : Tables) (username filename : Bytes) : Option Nat :=
  (t.userId username).bind fun id =>
    (t.files.find? fun row => row.userId = id ∧ row.filename = filename).map FileRow.size

/-- `SELECT quota_used FROM users WHERE username = ?` -/
def quotaUsed (t : Tables) (username : Bytes) : Option Nat :=
  (t.users.find? fun user => user.username = username).map User.quotaUsed

/-- The keys of the schema: `id` and `username` of a user, `user_id` with `filename` of a file. -/
structure Schema (t : Tables) : Prop where
  usernames : (t.users.map User.username).Nodup
  ids : (t.users.map User.id).Nodup
  rows : (t.files.map fun row => (row.userId, row.filename)).Nodup

theorem userId_eq_some {t : Tables} {username : Bytes} {id : Int} (h : t.userId username = some id) :
    ∃ user ∈ t.users, user.username = username ∧ user.id = id := by
  obtain ⟨user, hfind, rfl⟩ := Option.map_eq_some_iff.mp h
  exact ⟨user, List.mem_of_find?_eq_some hfind, by simpa using List.find?_some hfind, rfl⟩

/-- No two users have one id. -/
theorem Schema.userId_inj {t : Tables} (ht : t.Schema) {u v : Bytes} {id : Int}
    (hu : t.userId u = some id) (hv : t.userId v = some id) : u = v := by
  obtain ⟨user, hmem, rfl, hid⟩ := userId_eq_some hu
  obtain ⟨other, hmem', rfl, hid'⟩ := userId_eq_some hv
  rw [List.inj_on_of_nodup_map ht.ids hmem hmem' (hid.trans hid'.symm)]

end Tables

/-- `sqlite3_column_int`: the lower 32 bits of the value, with their sign. -/
def columnInt (value : Int) : Int := value.bmod (2 ^ 32)

/-- `user_exists`, where `prepared` is whether the query can be prepared. -/
def userExists (prepared : Bool) (t : Tables) (username : Bytes) : Bool :=
  prepared && (t.userId username).isSome

/-- `db_add_or_update_file` with its return value. -/
def dbAddOrUpdateFile (fault : DbFault) (db : Connection) (username filename : Bytes) (size : Nat) :
    Connection × Int :=
  if fault = .begin then (db, -1)
  else
    let db := db.beginTransaction
    if fault = .prepareId then (db.rollback, -1)
    else
      match if fault = .stepId then none else db.tables.userId username with
      | none => (db.rollback, -2)
      | some id =>
        let userId := columnInt id
        if fault = .prepareChange then (db.rollback, -1)
        else if fault = .stepChange then (db.rollback, -1)
        else
          let db := db.exec fun t => t.upsertFile userId filename size
          if fault = .prepareQuota then (db.rollback, -1)
          else if fault = .stepQuota then (db.rollback, -1)
          else
            let db := db.exec fun t => t.updateQuota userId
            if fault = .commit then (db.rollback, -1) else (db.commit, 0)

/-- `db_remove_file` with its return value. -/
def dbRemoveFile (fault : DbFault) (db : Connection) (username filename : Bytes) : Connection × Int :=
  if fault = .begin then (db, -1)
  else
    let db := db.beginTransaction
    if fault = .prepareId then (db.rollback, -1)
    else
      match if fault = .stepId then none else db.tables.userId username with
      | none => (db.rollback, -2)
      | some id =>
        let userId := columnInt id
        if fault = .prepareChange then (db.rollback, -1)
        else if fault = .stepChange then (db.rollback, -1)
        else
          let changes := db.tables.changes userId filename
          let db := db.exec fun t => t.deleteFile userId filename
          if changes = 0 then (db.rollback, -3)
          else if fault = .prepareQuota then (db.rollback, -1)
          else if fault = .stepQuota then (db.rollback, -1)
          else
            let db := db.exec fun t => t.updateQuota userId
            if fault = .commit then (db.rollback, -1) else (db.commit, 0)

theorem Tables.changes_eq_zero {t : Tables} {userId : Int} {filename : Bytes} :
    t.changes userId filename = 0 ↔ ∀ row ∈ t.files, ¬ (row.userId = userId ∧ row.filename = filename) := by
  simp only [changes, List.countP_eq_zero, decide_eq_true_eq]

/-- What a call leaves: the tables as they were, or the whole change, and no transaction. -/
theorem dbAddOrUpdateFile_spec (fault : DbFault) {db : Connection} (hdb : db.saved = none)
    (username filename : Bytes) (size : Nat) :
    (∃ id, fault = .none ∧ db.tables.userId username = some id ∧
      dbAddOrUpdateFile fault db username filename size =
        (⟨(db.tables.upsertFile (columnInt id) filename size).updateQuota (columnInt id), none⟩, 0)) ∨
    ((fault ≠ .none ∨ db.tables.userId username = none) ∧
      (dbAddOrUpdateFile fault db username filename size).1 = db ∧
      (dbAddOrUpdateFile fault db username filename size).2 ≠ 0) := by
  obtain ⟨tables, saved⟩ := db
  subst hdb
  cases hid : tables.userId username with
  | none =>
    right
    cases fault <;>
      simp [dbAddOrUpdateFile, hid, Connection.beginTransaction, Connection.rollback]
  | some id =>
    cases fault with
    | none =>
      left
      exact ⟨id, rfl, rfl, by
        simp [dbAddOrUpdateFile, hid, Connection.beginTransaction, Connection.exec, Connection.commit]⟩
    | _ =>
      right
      simp [dbAddOrUpdateFile, hid, Connection.beginTransaction, Connection.rollback, Connection.exec]

theorem dbRemoveFile_spec (fault : DbFault) {db : Connection} (hdb : db.saved = none)
    (username filename : Bytes) :
    (∃ id, fault = .none ∧ db.tables.userId username = some id ∧
      (∃ row ∈ db.tables.files, row.userId = columnInt id ∧ row.filename = filename) ∧
      dbRemoveFile fault db username filename =
        (⟨(db.tables.deleteFile (columnInt id) filename).updateQuota (columnInt id), none⟩, 0)) ∨
    ((fault ≠ .none ∨ (∀ id, db.tables.userId username = some id → ∀ row ∈ db.tables.files,
        ¬ (row.userId = columnInt id ∧ row.filename = filename))) ∧
      (dbRemoveFile fault db username filename).1 = db ∧
      (dbRemoveFile fault db username filename).2 ≠ 0) := by
  obtain ⟨tables, saved⟩ := db
  subst hdb
  cases hid : tables.userId username with
  | none =>
    right
    cases fault <;>
      simp [dbRemoveFile, hid, Connection.beginTransaction, Connection.rollback]
  | some id =>
    cases fault with
    | none =>
      by_cases hcount : tables.changes (columnInt id) filename = 0
      · right
        refine ⟨.inr fun other hother => ?_, ?_⟩
        · cases hother
          exact Tables.changes_eq_zero.mp hcount
        · simp [dbRemoveFile, hid, Connection.beginTransaction, Connection.exec, Connection.rollback, hcount]
      · left
        refine ⟨id, rfl, rfl, ?_, ?_⟩
        · by_contra hrow
          refine hcount (Tables.changes_eq_zero.mpr fun row hmem h => hrow ⟨row, hmem, h⟩)
        · simp [dbRemoveFile, hid, Connection.beginTransaction, Connection.exec, Connection.commit, hcount]
    | _ =>
      right
      by_cases hcount : tables.changes (columnInt id) filename = 0 <;>
        simp [dbRemoveFile, hid, Connection.beginTransaction, Connection.rollback, Connection.exec, hcount]

end Stash.Auth
