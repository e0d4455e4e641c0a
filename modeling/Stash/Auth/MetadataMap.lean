import Mathlib.Data.Nat.Digits.Lemmas
import Mathlib.Logic.Function.Basic
import Stash.Auth.Accounts
import Stash.Foundation.Runs

/-! The metadata as a map from users to their file tables, and when the database keeps to it
over a whole history of calls. -/
namespace Stash.Auth
open Foundation.CText Foundation.Runs

/-- What the metadata is for: a password and the sizes of the files, user by user. -/
structure Account where
  passwordHash : Bytes
  quotaLimit : Nat
  files : Bytes → Option Nat

abbrev Accounts := Bytes → Option Account

/-- A call with the statement of it that fails. -/
inductive Operation where
  | createUser (fault : StmtFault) (username passwordHash : Bytes)
  | addOrUpdateFile (fault : DbFault) (username filename : Bytes) (size : Fin (2 ^ 63))
  | removeFile (fault : DbFault) (username filename : Bytes)
  | updateUserQuota (fault : StmtFault) (username : Bytes)

namespace Operation

def perform (db : Connection) : Operation → Connection × Int
  | .createUser fault username passwordHash => dbCreateUser fault db username passwordHash
  | .addOrUpdateFile fault username filename size => dbAddOrUpdateFile fault db username filename size
  | .removeFile fault username filename => dbRemoveFile fault db username filename
  | .updateUserQuota fault username => dbUpdateUserQuota fault db username

/-- No statement of the call fails; creating a user fails when the ids are used up. -/
def succeeds (t : Tables) : Operation → Bool
  | .createUser fault _ _ => fault = .none ∧ t.nextUserId < 2 ^ 63
  | .addOrUpdateFile fault _ _ _ => fault = .none
  | .removeFile fault _ _ => fault = .none
  | .updateUserQuota fault _ => fault = .none

end Operation

namespace Accounts

def record (accounts : Accounts) (username filename : Bytes) (size : Option Nat) : Accounts := fun other =>
  (accounts other).map fun account =>
    if other = username then { account with files := Function.update account.files filename size } else account

theorem record_self {accounts : Accounts} {username : Bytes} {account : Account}
    (h : accounts username = some account) (filename : Bytes) (size : Option Nat) :
    accounts.record username filename size username =
      some { account with files := Function.update account.files filename size } := by
  simp [record, h]

/-- The update of the map that a call stands for, with the code that tells what was there. -/
def apply (accounts : Accounts) : Operation → Accounts × Int
  | .createUser _ username passwordHash =>
    match accounts username with
    | some _ => (accounts, -2)
    | none => (Function.update accounts username (some ⟨passwordHash, 104857600, fun _ => none⟩), 0)
  | .addOrUpdateFile _ username filename size =>
    match accounts username with
    | none => (accounts, -2)
    | some _ => (accounts.record username filename (some size), 0)
  | .removeFile _ username filename =>
    match accounts username with
    | none => (accounts, -2)
    | some account =>
      match account.files filename with
      | none => (accounts, -3)
      | some _ => (accounts.record username filename none, 0)
  | .updateUserQuota _ _ => (accounts, 0)

end Accounts

/-- The database, the map that the successful calls make, and whether every call in which no
statement failed has returned what the map says. -/
structure Ledger where
  db : Connection
  accounts : Accounts
  truthful : Bool

namespace Ledger

def fresh : Ledger := ⟨⟨⟨[], []⟩, none⟩, fun _ => none, true⟩

def step (s : Ledger) (op : Operation) : Option Ledger :=
  let (db, code) := op.perform s.db
  let (accounts, told) := s.accounts.apply op
  some ⟨db, if code = 0 then accounts else s.accounts, s.truthful && (!op.succeeds s.db.tables || code == told)⟩

end Ledger

/-- The map that the tables hold. -/
def Tables.view (t : Tables) : Accounts := fun username =>
  (t.user username).map fun user => ⟨user.passwordHash, user.quotaLimit, t.fileSize username⟩

/-- The tables hold the map and nothing else, and every quota is the sum of its rows. -/
structure Ledger.Refines (s : Ledger) : Prop where
  view : s.db.tables.view = s.accounts
  rows : (s.db.tables.files.map fun row => (row.userId, row.filename)).Nodup
  owned : s.db.tables.Owned
  quota : ∀ user ∈ s.db.tables.users, user.quotaUsed = s.db.tables.storedBytes user.id
  truthful : s.truthful = true

/-- A call that changes rows reads the id of its user as it is. -/
def Ledger.IdFits (s : Ledger) : Operation → Prop
  | .addOrUpdateFile .none username _ _ => ∀ id, s.db.tables.userId username = some id → columnInt id = id
  | .removeFile .none username filename => ∀ id, s.db.tables.userId username = some id →
      (∃ row ∈ s.db.tables.files, row.userId = columnInt id ∧ row.filename = filename) → columnInt id = id
  | _ => True

namespace Tables
variable {t t' : Tables} {username filename : Bytes} {id : Int}

def profile (user : User) : Bytes × Nat := (user.passwordHash, user.quotaLimit)

/-- Two databases with the same profiles differ in the sizes of files only. -/
theorem view_ext {accounts : Accounts}
    (hprofile : ∀ other, (t'.user other).map profile = (accounts other).map fun a => (a.passwordHash, a.quotaLimit))
    (hfiles : ∀ other account, accounts other = some account → t'.fileSize other = account.files) :
    t'.view = accounts := by
  funext other
  have hother := hprofile other
  cases haccount : accounts other with
  | none =>
    rw [haccount, Option.map_none, Option.map_eq_none_iff] at hother
    rw [view, hother, Option.map_none]
  | some account =>
    rw [haccount, Option.map_some] at hother
    obtain ⟨user, huser, hsame⟩ := Option.map_eq_some_iff.mp hother
    obtain ⟨hhash, hlimit⟩ := Prod.mk.inj hsame
    rw [view, huser, Option.map_some, hhash, hlimit, hfiles other account haccount]

theorem view_eq_none : t.view username = none ↔ t.user username = none := by
  rw [view, Option.map_eq_none_iff]

theorem profile_view (other : Bytes) :
    (t.view other).map (fun a => (a.passwordHash, a.quotaLimit)) = (t.user other).map profile := by
  rw [view, Option.map_map]
  rfl

/-- What a quota update leaves of a row: every field but the quota used. -/
theorem field_updateQuota {α : Type*} {field : User → α}
    (hfield : ∀ user quotaUsed, field { user with quotaUsed := quotaUsed } = field user) (other : Bytes) :
    ((t.updateQuota id).user other).map field = (t.user other).map field := by
  rw [user_updateQuota, Option.map_map]
  congr 1
  funext user
  simp only [Function.comp]
  split
  · exact hfield user _
  · rfl

theorem profile_updateQuota (other : Bytes) :
    ((t.updateQuota id).user other).map profile = (t.user other).map profile :=
  field_updateQuota (fun _ _ => rfl) other

theorem files_of_view {other : Bytes} {account : Account} (h : t.view other = some account) :
    account.files = t.fileSize other := by
  obtain ⟨user, _, rfl⟩ := Option.map_eq_some_iff.mp h
  rfl

/-- A change of one file and of its owner's quota is a change of the map at that file. -/
theorem view_recorded {size : Option Nat}
    (hprofile : ∀ other, (t'.user other).map profile = (t.user other).map profile)
    (hfiles : ∀ other name, t'.fileSize other name =
      if other = username ∧ name = filename then size else t.fileSize other name) :
    t'.view = Accounts.record t.view username filename size := by
  apply view_ext
  · intro other
    rw [hprofile, ← profile_view, Accounts.record, Option.map_map]
    congr 1
    funext account
    simp only [Function.comp]
    split <;> rfl
  · intro other account haccount
    obtain ⟨old, hold, rfl⟩ := Option.map_eq_some_iff.mp haccount
    funext name
    rw [hfiles]
    by_cases hother : other = username
    · by_cases hname : name = filename
      · simp [hother, hname]
      · simp [hother, hname, files_of_view (hother ▸ hold)]
    · simp [hother, files_of_view hold]

theorem view_inserted (hname : t.user username = none) (howned : t.Owned)
    (passwordHash : Bytes) : (t.insertUser username passwordHash).view =
      Function.update t.view username (some ⟨passwordHash, 104857600, fun _ => none⟩) := by
  apply view_ext
  · intro other
    rw [user_insertUser hname]
    by_cases hother : other = username
    · simp [hother, profile]
    · simp [hother, profile_view]
  · intro other account haccount
    by_cases hother : other = username
    · subst hother
      rw [Function.update_self] at haccount
      obtain rfl := Option.some.inj haccount
      funext name
      have hid : (t.insertUser other passwordHash).userId other = some t.nextUserId := by
        rw [userId_eq, user_insertUser hname, if_pos rfl, Option.map_some]
      rw [fileSize, hid, Option.bind_some, Option.map_eq_none_iff, List.find?_eq_none]
      intro row hrow hkey
      obtain ⟨owner, howner, hsame⟩ := howned row hrow
      have hlt := lt_nextUserId howner
      rw [hsame, (of_decide_eq_true hkey).1] at hlt
      exact Int.lt_irrefl _ hlt
    · rw [Function.update_of_ne hother] at haccount
      rw [files_of_view haccount]
      funext name
      rw [fileSize, fileSize, userId_eq, user_insertUser hname, if_neg hother]
      rfl

end Tables

section
variable {db : Connection} {username passwordHash : Bytes}

theorem dbCreateUser_idle (fault : StmtFault) (hidle : db.saved = none) (name hash : Bytes) :
    (dbCreateUser fault db name hash).1.saved = none := by
  rcases dbCreateUser_cases fault db name hash with ⟨_, _, _, hdone⟩ | ⟨_, _, _, hdone⟩ | ⟨_, hdone⟩
  · rw [hdone]
    exact hidle
  · rw [hdone]
    exact hidle
  · rw [hdone]
    exact hidle

/-- Creating an account leaves the hashes of the others, and of one that is there. -/
theorem dbCreateUser_hash (fault : StmtFault) (name hash : Bytes)
    (h : name ≠ username ∨ (db.tables.user username).isSome) :
    ((dbCreateUser fault db name hash).1.tables.user username).map User.passwordHash =
      (db.tables.user username).map User.passwordHash := by
  rcases dbCreateUser_cases fault db name hash with ⟨_, _, hname, hdone⟩ | ⟨_, _, _, hdone⟩ | ⟨_, hdone⟩
  · rw [hdone]
    simp only [Connection.exec]
    rw [Tables.user_insertUser hname, if_neg]
    rintro rfl
    rw [hname] at h
    exact h.elim (fun hne => hne rfl) (fun hsome => by cases hsome)
  · rw [hdone]
  · rw [hdone]

theorem isSome_of_hash (h : (db.tables.user username).map User.passwordHash = some passwordHash) :
    (db.tables.user username).isSome := by
  obtain ⟨user, huser, _⟩ := Option.map_eq_some_iff.mp h
  rw [huser]
  rfl

theorem dbCreateUser_password (fault : StmtFault) (name hash : Bytes)
    (h : (db.tables.user username).map User.passwordHash = some passwordHash) :
    ((dbCreateUser fault db name hash).1.tables.user username).map User.passwordHash = some passwordHash := by
  rw [dbCreateUser_hash fault name hash (.inr (isSome_of_hash h)), h]

/-- The account that a call creates. -/
def Operation.creates : Operation → Option Bytes
  | .createUser _ name _ => some name
  | _ => none

/-- No transaction is left open. -/
theorem Operation.perform_idle (op : Operation) (hidle : db.saved = none) : (op.perform db).1.saved = none := by
  cases op with
  | createUser fault name hash => exact dbCreateUser_idle fault hidle name hash
  | addOrUpdateFile fault name filename size =>
    simp only [perform]
    rcases dbAddOrUpdateFile_spec fault hidle name filename size with ⟨_, _, _, hdone⟩ | ⟨_, hsame, _⟩
    · rw [hdone]
    · rw [hsame, hidle]
  | removeFile fault name filename =>
    simp only [perform]
    rcases dbRemoveFile_spec fault hidle name filename with ⟨_, _, _, _, hdone⟩ | ⟨_, hsame, _⟩
    · rw [hdone]
    · rw [hsame, hidle]
  | updateUserQuota fault name => cases fault <;> exact hidle

/-- No call but its creation changes what is stored as the hash of an account. -/
theorem Operation.perform_hash (op : Operation) (hidle : db.saved = none)
    (h : op.creates ≠ some username ∨ (db.tables.user username).isSome) :
    ((op.perform db).1.tables.user username).map User.passwordHash =
      (db.tables.user username).map User.passwordHash := by
  have hcharged : ∀ t : Tables, t.users = db.tables.users → ∀ id,
      ((t.updateQuota id).user username).map User.passwordHash =
        (db.tables.user username).map User.passwordHash := by
    intro t husers id
    rw [Tables.field_updateQuota (fun _ _ => rfl), Tables.user, husers]
    rfl
  cases op with
  | createUser fault name hash => exact dbCreateUser_hash fault name hash (h.imp_left fun hne heq => hne (congrArg some heq))
  | addOrUpdateFile fault name filename size =>
    simp only [perform]
    rcases dbAddOrUpdateFile_spec fault hidle name filename size with ⟨id, _, _, hdone⟩ | ⟨_, hsame, _⟩
    · rw [hdone]
      exact hcharged (db.tables.upsertFile (columnInt id) filename size) rfl (columnInt id)
    · rw [hsame]
  | removeFile fault name filename =>
    simp only [perform]
    rcases dbRemoveFile_spec fault hidle name filename with ⟨id, _, _, _, hdone⟩ | ⟨_, hsame, _⟩
    · rw [hdone]
      exact hcharged (db.tables.deleteFile (columnInt id) filename) rfl (columnInt id)
    · rw [hsame]
  | updateUserQuota fault name =>
    cases fault with
    | none =>
      show (((db.tables.updateQuotaOf name).user username).map User.passwordHash) = _
      rw [Tables.user_updateQuotaOf, Option.map_map]
      congr 1
      funext user
      simp only [Function.comp]
      split <;> rfl
    | prepare => rfl
    | step => rfl

/-- No call changes the password of an account that is there. -/
theorem Operation.perform_password (op : Operation) (hidle : db.saved = none)
    (h : (db.tables.user username).map User.passwordHash = some passwordHash) :
    ((op.perform db).1.tables.user username).map User.passwordHash = some passwordHash := by
  rw [op.perform_hash hidle (.inr (isSome_of_hash h)), h]

end

namespace Ledger
variable {s s' : Ledger} {op : Operation}

/-- The invariant: besides the refinement, the ids under which rows stand are 32-bit ones. -/
structure Kept (s : Ledger) : Prop where
  idle : s.db.saved = none
  accounted : s.db.tables.Accounted
  owned : s.db.tables.Owned
  readable : ∀ row ∈ s.db.tables.files, columnInt row.userId = row.userId
  view : s.db.tables.view = s.accounts
  truthful : s.truthful = true

theorem Kept.refines (h : s.Kept) : s.Refines :=
  ⟨h.view, h.accounted.schema.rows, h.owned, h.accounted.quota, h.truthful⟩

theorem kept_fresh : fresh.Kept :=
  ⟨rfl, ⟨⟨List.nodup_nil, List.nodup_nil, List.nodup_nil⟩, nofun⟩, nofun, nofun, rfl, rfl⟩

/-- A call that fails has changed nothing, and has told what was missing if no statement failed. -/
private theorem kept_failed (h : s.Kept) (hstep : s.step op = some s') {code : Int}
    (hperform : op.perform s.db = (s.db, code)) (hcode : code ≠ 0)
    (htold : op.succeeds s.db.tables = true → (s.accounts.apply op).2 = code) : s'.Kept := by
  simp only [step, hperform, if_neg hcode] at hstep
  obtain rfl := Option.some.inj hstep
  refine ⟨h.idle, h.accounted, h.owned, h.readable, h.view, ?_⟩
  show (s.truthful && (!op.succeeds s.db.tables || code == (s.accounts.apply op).2)) = true
  rw [h.truthful]
  cases hgood : op.succeeds s.db.tables with
  | false => rfl
  | true => simp [htold hgood]

/-- A call that succeeds has made the change of the map. -/
private theorem kept_done (h : s.Kept) (hstep : s.step op = some s') {db : Connection} {accounts : Accounts}
    (hperform : op.perform s.db = (db, 0)) (happly : s.accounts.apply op = (accounts, 0))
    (hidle : db.saved = none) (haccounted : db.tables.Accounted) (howned : db.tables.Owned)
    (hreadable : ∀ row ∈ db.tables.files, columnInt row.userId = row.userId)
    (hview : db.tables.view = accounts) : s'.Kept := by
  simp only [step, hperform, happly, if_pos] at hstep
  obtain rfl := Option.some.inj hstep
  refine ⟨hidle, haccounted, howned, hreadable, hview, ?_⟩
  show (s.truthful && (!op.succeeds s.db.tables || (0 : Int) == 0)) = true
  rw [h.truthful]
  simp

theorem Kept.accounts_eq_none (h : s.Kept) {username : Bytes} :
    s.accounts username = none ↔ s.db.tables.user username = none := by
  rw [← h.view, Tables.view_eq_none]

/-- The map's account of a user that the tables have. -/
theorem Kept.account (h : s.Kept) {username : Bytes} {id : Int} (hid : s.db.tables.userId username = some id) :
    ∃ account, s.accounts username = some account ∧ account.files = s.db.tables.fileSize username := by
  rw [Tables.userId_eq] at hid
  obtain ⟨user, huser, _⟩ := Option.map_eq_some_iff.mp hid
  exact ⟨_, by rw [← h.view, Tables.view, huser]; rfl, rfl⟩

theorem Kept.no_account (h : s.Kept) {username : Bytes} (hid : s.db.tables.userId username = none) :
    s.accounts username = none := h.accounts_eq_none.mpr (Option.map_eq_none_iff.mp hid)

private theorem kept_createUser (h : s.Kept) {fault : StmtFault} {username passwordHash : Bytes}
    (hstep : s.step (.createUser fault username passwordHash) = some s') : s'.Kept := by
  rcases dbCreateUser_cases fault s.db username passwordHash with ⟨_, _, hname, hdone⟩ | ⟨_, _, hname, hdone⟩ |
    ⟨hfail, hdone⟩
  · have happly : s.accounts.apply (.createUser fault username passwordHash) =
        (Function.update s.accounts username (some ⟨passwordHash, 104857600, fun _ => none⟩), 0) := by
      rw [Accounts.apply, h.accounts_eq_none.mpr hname]
    refine kept_done h hstep hdone happly h.idle (h.accounted.inserted h.owned hname passwordHash)
      (h.owned.insertUser _ _) h.readable ?_
    rw [← h.view]
    exact Tables.view_inserted hname h.owned passwordHash
  · refine kept_failed h hstep hdone (by decide) fun _ => ?_
    cases haccount : s.accounts username with
    | some account => rw [Accounts.apply, haccount]
    | none =>
      rw [h.accounts_eq_none.mp haccount] at hname
      cases hname
  · refine kept_failed h hstep hdone (by decide) fun hgood => ?_
    have hgood := of_decide_eq_true hgood
    rcases hfail with hf | hfull
    · exact absurd hgood.1 hf
    · exact absurd hgood.2 (Int.not_lt.mpr hfull)

private theorem kept_addOrUpdateFile (h : s.Kept) {fault : DbFault} {username filename : Bytes} {size : Fin (2 ^ 63)}
    (hfits : s.IdFits (.addOrUpdateFile fault username filename size))
    (hstep : s.step (.addOrUpdateFile fault username filename size) = some s') : s'.Kept := by
  rcases dbAddOrUpdateFile_spec fault h.idle username filename size with ⟨id, rfl, hid, hdone⟩ | ⟨hfail, hsame, hcode⟩
  · obtain ⟨account, haccount, _⟩ := h.account hid
    have hread : columnInt id = id := hfits id hid
    rw [hread] at hdone
    obtain ⟨owner, howner, _, rfl⟩ := Tables.userId_eq_some hid
    refine kept_done h hstep hdone (by rw [Accounts.apply, haccount]) rfl (h.accounted.recorded _ filename size)
      ((h.owned.upsertFile howner filename size).updateQuota _) (fun row hrow => ?_) ?_
    · rcases Tables.mem_upsertFile.mp hrow with rfl | ⟨hold, _⟩
      · exact hread
      · exact h.readable row hold
    · rw [← h.view]
      exact Tables.view_recorded (fun _ => Tables.profile_updateQuota _)
        (h.accounted.schema.fileSize_recorded hid filename size)
  · refine kept_failed h hstep (Prod.ext hsame rfl) hcode fun hgood => ?_
    obtain rfl : fault = .none := of_decide_eq_true hgood
    have hid := hfail.resolve_left (fun hf => hf rfl)
    rw [Accounts.apply, h.no_account hid]
    simp [Operation.perform, dbAddOrUpdateFile, Connection.beginTransaction, hid]

private theorem kept_removeFile (h : s.Kept) {fault : DbFault} {username filename : Bytes}
    (hfits : s.IdFits (.removeFile fault username filename))
    (hstep : s.step (.removeFile fault username filename) = some s') : s'.Kept := by
  rcases dbRemoveFile_spec fault h.idle username filename with ⟨id, rfl, hid, hrow, hdone⟩ | ⟨hfail, hsame, hcode⟩
  · obtain ⟨account, haccount, hfiles⟩ := h.account hid
    have hread : columnInt id = id := hfits id hid hrow
    rw [hread] at hdone hrow
    have happly : s.accounts.apply (.removeFile .none username filename) =
        (s.accounts.record username filename none, 0) := by
      obtain ⟨⟨_, _, size⟩, hmem, rfl, rfl⟩ := hrow
      simp only [Accounts.apply, haccount, hfiles, h.accounted.schema.fileSize_eq_some.mpr ⟨_, hid, hmem⟩]
    refine kept_done h hstep hdone happly rfl (h.accounted.removed _ _)
      ((h.owned.deleteFile _ _).updateQuota _)
      (fun row hrow => h.readable row (Tables.mem_deleteFile.mp hrow).1) ?_
    rw [← h.view]
    exact Tables.view_recorded (fun _ => Tables.profile_updateQuota _)
      (h.accounted.schema.fileSize_removed hid _)
  · refine kept_failed h hstep (Prod.ext hsame rfl) hcode fun hgood => ?_
    obtain rfl : fault = .none := of_decide_eq_true hgood
    have hnorow := hfail.resolve_left (fun hf => hf rfl)
    cases hid : s.db.tables.userId username with
    | none =>
      rw [Accounts.apply, h.no_account hid]
      simp [Operation.perform, dbRemoveFile, Connection.beginTransaction, hid]
    | some id =>
      obtain ⟨account, haccount, hfiles⟩ := h.account hid
      have hchanges : s.db.tables.changes (columnInt id) filename = 0 := Tables.changes_eq_zero.mpr (hnorow id hid)
      have hsize : s.db.tables.fileSize username filename = none := by
        refine Option.eq_none_iff_forall_ne_some.mpr fun size hsize => ?_
        obtain ⟨other, hother, hmem⟩ := h.accounted.schema.fileSize_eq_some.mp hsize
        exact hnorow other hother _ hmem ⟨(h.readable _ hmem).symm, rfl⟩
      simp only [Accounts.apply, haccount, hfiles, hsize]
      simp [Operation.perform, dbRemoveFile, Connection.beginTransaction, Connection.exec, hid, hchanges]

private theorem kept_updateUserQuota (h : s.Kept) {fault : StmtFault} {username : Bytes}
    (hstep : s.step (.updateUserQuota fault username) = some s') : s'.Kept := by
  cases fault with
  | none =>
    have hdone : Operation.perform s.db (.updateUserQuota .none username) = (s.db, 0) := by
      show (s.db.exec fun t => t.updateQuotaOf username, (0 : Int)) = (s.db, 0)
      rw [Connection.exec, h.accounted.updateQuotaOf username]
    exact kept_done h hstep hdone rfl h.idle h.accounted h.owned h.readable h.view
  | prepare => exact kept_failed h hstep rfl (by decide) fun hgood => absurd hgood Bool.false_ne_true
  | step => exact kept_failed h hstep rfl (by decide) fun hgood => absurd hgood Bool.false_ne_true

theorem kept_step (h : s.Kept) (hfits : s.IdFits op) (hstep : s.step op = some s') : s'.Kept := by
  cases op with
  | createUser fault username passwordHash => exact kept_createUser h hstep
  | addOrUpdateFile fault username filename size => exact kept_addOrUpdateFile h hfits hstep
  | removeFile fault username filename => exact kept_removeFile h hfits hstep
  | updateUserQuota fault username => exact kept_updateUserQuota h hstep

/-- A call that reads another id than its user's is caught. -/
theorem idFits_of_refines (h : s.Kept) (hstep : s.step op = some s') (hafter : s'.Refines) : s.IdFits op := by
  cases op with
  | createUser fault username passwordHash => trivial
  | updateUserQuota fault username => trivial
  | addOrUpdateFile fault username filename size =>
    cases fault with
    | none =>
      intro id hid
      rcases dbAddOrUpdateFile_spec .none h.idle username filename size with ⟨other, _, hother, hdone⟩ | ⟨hfail, _, _⟩
      · obtain rfl := Option.some.inj (hid.symm.trans hother)
        obtain ⟨account, haccount, _⟩ := h.account hid
        have hperform : Operation.perform s.db (.addOrUpdateFile .none username filename size) = _ := hdone
        have happly : s.accounts.apply (.addOrUpdateFile .none username filename size) =
            (s.accounts.record username filename (some size), 0) := by rw [Accounts.apply, haccount]
        simp only [step, hperform, happly, if_pos] at hstep
        obtain rfl := Option.some.inj hstep
        -- The map has the size now, so there is a row with it under the id itself.
        have hview := (congrFun hafter.view username).trans (Accounts.record_self haccount filename (some size.val))
        have hsize := (congrFun (Tables.files_of_view hview) filename).symm.trans (Function.update_self ..)
        rw [Tables.fileSize_updateQuota, h.accounted.schema.upsertFile.fileSize_eq_some] at hsize
        obtain ⟨key, hkey, hmem⟩ := hsize
        obtain rfl := Option.some.inj (hid.symm.trans hkey)
        rcases Tables.mem_upsertFile.mp hmem with hnew | ⟨hold, _⟩
        · exact (FileRow.mk.inj hnew).1.symm
        · exact h.readable _ hold
      · rw [hfail.resolve_left (fun hf => hf rfl)] at hid
        cases hid
    | _ => trivial
  | removeFile fault username filename =>
    cases fault with
    | none =>
      intro id hid hrow
      rcases dbRemoveFile_spec .none h.idle username filename with ⟨_, _, _, _, hdone⟩ | ⟨hfail, _, _⟩
      · obtain ⟨account, haccount, hfiles⟩ := h.account hid
        have hperform : Operation.perform s.db (.removeFile .none username filename) = _ := hdone
        have htold : (s.accounts.apply (.removeFile .none username filename)).2 = 0 := by
          have htruthful := hafter.truthful
          simp only [step, hperform] at hstep
          obtain rfl := Option.some.inj hstep
          rcases Bool.or_eq_true_iff.mp (Bool.and_eq_true_iff.mp htruthful).2 with hfault | htold
          · cases hfault
          · exact (eq_of_beq htold).symm
        cases hsize : s.db.tables.fileSize username filename with
        | none => simp [Accounts.apply, haccount, hfiles, hsize] at htold
        | some size =>
          obtain ⟨key, hkey, hmem⟩ := h.accounted.schema.fileSize_eq_some.mp hsize
          obtain rfl := Option.some.inj (hid.symm.trans hkey)
          exact h.readable _ hmem
      · obtain ⟨row, hmem, hkey⟩ := hrow
        exact absurd hkey (hfail.resolve_left (fun hf => hf rfl) id hid row hmem)
    | _ => trivial

end Ledger

/-- The account names "1", "2" and so on, least digit first. -/
def numberedName (i : Nat) : Bytes := (Nat.digits 10 (i + 1)).map fun d => UInt8.ofNat (48 + d)

def numberedUsers (n : Nat) : List User :=
  (List.range n).map fun i : Nat => ⟨(i : Int) + 1, numberedName i, [], 0, 104857600⟩

def signups (n : Nat) : List Operation := (List.range n).map fun i => .createUser .none (numberedName i) []

theorem numberedName_injective : Function.Injective numberedName := by
  have hback : ∀ i, Nat.ofDigits 10 ((numberedName i).map fun c => c.toNat - 48) = i + 1 := by
    intro i
    have hdigits : (numberedName i).map (fun c => c.toNat - 48) = Nat.digits 10 (i + 1) := by
      rw [numberedName, List.map_map]
      conv_rhs => rw [← List.map_id (Nat.digits 10 (i + 1))]
      apply List.map_congr_left
      intro d hd
      have hlt : d < 10 := Nat.digits_lt_base (by decide) hd
      simp only [Function.comp, UInt8.toNat_ofNat', id]
      omega
    rw [hdigits, Nat.ofDigits_digits]
  intro i j hij
  have hi := hback i
  rw [hij, hback j] at hi
  omega

theorem numberedUsers_succ (n : Nat) :
    numberedUsers (n + 1) = numberedUsers n ++ [⟨(n : Int) + 1, numberedName n, [], 0, 104857600⟩] := by
  simp [numberedUsers, List.range_succ]

theorem mem_numberedUsers {i n : Nat} (hi : i < n) :
    ⟨(i : Int) + 1, numberedName i, [], 0, 104857600⟩ ∈ numberedUsers n :=
  List.mem_map.mpr ⟨i, List.mem_range.mpr hi, rfl⟩

theorem nextUserId_numbered (n : Nat) : Tables.nextUserId ⟨numberedUsers n, []⟩ = n + 1 := by
  have htop : ((numberedUsers n).map User.id).foldl max 0 = (n : Int) := by
    induction n with
    | zero => rfl
    | succ n ih =>
      rw [numberedUsers_succ, List.map_append, List.foldl_append, ih, Int.natCast_succ]
      exact Int.max_eq_right (Int.le_add_one (Int.le_refl _))
  rw [Tables.nextUserId, htop]

theorem user_numbered (n : Nat) : Tables.user ⟨numberedUsers n, []⟩ (numberedName n) = none := by
  refine Tables.user_eq_none.mpr fun user hmem hname => ?_
  obtain ⟨i, hi, rfl⟩ := List.mem_map.mp hmem
  have hlt := List.mem_range.mp hi
  have heq := numberedName_injective hname
  omega

/-- Accounts are given the ids from 1 on. -/
theorem run_signups {n : Nat} (hn : n < 2 ^ 63) :
    ∃ s, run Ledger.step .fresh (signups n) = some s ∧ s.Kept ∧ s.db = ⟨⟨numberedUsers n, []⟩, none⟩ := by
  induction n with
  | zero => exact ⟨_, rfl, Ledger.kept_fresh, rfl⟩
  | succ n ih =>
    obtain ⟨s, hrun, hkept, hdb⟩ := ih (by omega)
    have hcreate : dbCreateUser .none s.db (numberedName n) [] = (⟨⟨numberedUsers (n + 1), []⟩, none⟩, 0) := by
      rcases dbCreateUser_cases .none s.db (numberedName n) [] with ⟨_, _, _, hdone⟩ | ⟨_, _, hname, _⟩ | ⟨hfail, _⟩
      · rw [hdone, hdb, numberedUsers_succ]
        simp only [Connection.exec, Tables.insertUser, nextUserId_numbered]
      · rw [hdb, user_numbered] at hname
        cases hname
      · rw [hdb, nextUserId_numbered] at hfail
        have hfull := hfail.resolve_left (fun hf => hf rfl)
        omega
    obtain ⟨t, ht⟩ : ∃ t, s.step (.createUser .none (numberedName n) []) = some t := ⟨_, rfl⟩
    have hfits : s.IdFits (.createUser .none (numberedName n) []) := trivial
    refine ⟨t, ?_, Ledger.kept_step hkept hfits ht, ?_⟩
    · rw [signups, List.range_succ, List.map_append, ← signups, run_append, hrun, Option.bind_some]
      simp only [List.map_cons, List.map_nil, run, ht, Option.bind_some]
    · simp only [Ledger.step, Operation.perform, hcreate] at ht
      rw [← Option.some.inj ht]

/-- The database refines the map through a history of calls, of which every one may fail at
every statement, exactly when no call narrows the id of its user. -/
theorem metadata_refines_iff (ops : List Operation) :
    Always Ledger.step Ledger.Refines .fresh ops ↔ Along Ledger.step Ledger.IdFits .fresh ops :=
  always_iff_along (fun _ _ _ => Ledger.kept_step) (fun _ h => h.refines)
    (fun _ _ _ => Ledger.idFits_of_refines) Ledger.kept_fresh

theorem user_of_signups {s : Ledger} (hkept : s.Kept) {i n : Nat} (hdb : s.db = ⟨⟨numberedUsers n, []⟩, none⟩)
    (hi : i < n) :
    s.db.tables.user (numberedName i) = some ⟨(i : Int) + 1, numberedName i, [], 0, 104857600⟩ := by
  have hmem : (⟨(i : Int) + 1, numberedName i, [], 0, 104857600⟩ : User) ∈ s.db.tables.users := by
    rw [hdb]
    exact mem_numberedUsers hi
  exact hkept.accounted.schema.user_of_mem hmem

/-- The first file of an account whose id is narrowed is recorded under another id. -/
theorem not_refines_narrowed {n : Nat} (hn : n + 1 < 2 ^ 63) (hnarrow : columnInt (n + 1) ≠ n + 1) (filename : Bytes)
    (size : Fin (2 ^ 63)) : ¬ Always Ledger.step Ledger.Refines .fresh
      (signups (n + 1) ++ [.addOrUpdateFile .none (numberedName n) filename size]) := by
  intro halways
  obtain ⟨s, hrun, hkept, hdb⟩ := run_signups hn
  obtain ⟨t, ht⟩ : ∃ t, s.step (.addOrUpdateFile .none (numberedName n) filename size) = some t := ⟨_, rfl⟩
  have hrefines : t.Refines := by
    apply halways.last
    rw [run_append, hrun, Option.bind_some]
    simp only [run, ht, Option.bind_some]
  have hid : s.db.tables.userId (numberedName n) = some ((n : Int) + 1) := by
    rw [Tables.userId_eq, user_of_signups hkept hdb (Nat.lt_succ_self n), Option.map_some]
  exact hnarrow (Ledger.idFits_of_refines hkept ht hrefines _ hid)

/-- The 2^31st account gets an id that `int user_id` cannot hold: its first file is recorded
under another id, though the call returns 0. -/
theorem recorded_under_another_id : ¬ Always Ledger.step Ledger.Refines .fresh
    (signups 2147483648 ++ [.addOrUpdateFile .none (numberedName 2147483647) (ascii "a") 1]) :=
  not_refines_narrowed (n := 2147483647) (by norm_num) (by decide) (ascii "a") 1

end Stash.Auth
