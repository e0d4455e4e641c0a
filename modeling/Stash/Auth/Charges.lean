import Stash.Auth.Accounts

/-! What a change of one row charges: the quotas before and behind it differ by the sizes of the
row, and no other user is charged. -/
namespace Stash.Auth.Tables
open Foundation.CText

/-- The row of the file may have changed, and its user is charged for that. -/
structure Charge (t t' : Tables) (username filename : Bytes) : Prop where
  used : (t'.quotaUsed username).getD 0 + (t.fileSize username filename).getD 0 =
    (t.quotaUsed username).getD 0 + (t'.fileSize username filename).getD 0
  others : ∀ other, other ≠ username → t'.quotaUsed other = t.quotaUsed other
  limits : ∀ other, (t'.user other).map User.quotaLimit = (t.user other).map User.quotaLimit

variable {t : Tables} {id : Int} {username filename : Bytes}

theorem Charge.refl (t : Tables) (username filename : Bytes) : t.Charge t username filename :=
  ⟨rfl, fun _ _ => rfl, fun _ => rfl⟩

theorem deleteFile_eq_self (h : ∀ row ∈ t.files, ¬ (row.userId = id ∧ row.filename = filename)) :
    t.deleteFile id filename = t := by
  have hfiles : t.files.filter (fun row => ¬ (row.userId = id ∧ row.filename = filename)) = t.files :=
    List.filter_eq_self.mpr fun row hmem => decide_eq_true (h row hmem)
  rw [deleteFile, hfiles]

/-- The row of a file and what is left without it add up to all that its user has stored. -/
theorem Schema.storedBytes_without (ht : t.Schema) (hid : t.userId username = some id) (filename : Bytes) :
    (t.deleteFile id filename).storedBytes id + (t.fileSize username filename).getD 0 = t.storedBytes id := by
  cases hsize : t.fileSize username filename with
  | some size =>
    obtain ⟨id', hid', hrow⟩ := ht.fileSize_eq_some.mp hsize
    obtain rfl := Option.some.inj (hid'.symm.trans hid)
    exact ht.storedBytes_removed hrow
  | none =>
    have hnone : ∀ row ∈ t.files, ¬ (row.userId = id ∧ row.filename = filename) := by
      rintro ⟨_, _, size⟩ hrow ⟨rfl, rfl⟩
      rw [ht.fileSize_eq_some.mpr ⟨_, hid, hrow⟩] at hsize
      cases hsize
    rw [deleteFile_eq_self hnone]
    rfl

theorem quotaUsed_eq (t : Tables) (username : Bytes) : t.quotaUsed username = (t.user username).map User.quotaUsed := rfl

/-- Charging one id leaves the limits, and the quotas of the users with other ids. -/
theorem updateQuota_others (ht : t.Schema) (hid : t.userId username = some id) :
    (∀ other, other ≠ username → (t.updateQuota id).quotaUsed other = t.quotaUsed other) ∧
      ∀ other, ((t.updateQuota id).user other).map User.quotaLimit = (t.user other).map User.quotaLimit := by
  refine ⟨fun other hother => ?_, fun other => ?_⟩
  · rw [quotaUsed_eq, quotaUsed_eq, user_updateQuota, Option.map_map]
    cases hfind : t.user other with
    | none => rfl
    | some user =>
      have hne : user.id ≠ id := by
        rintro rfl
        exact hother (ht.userId_inj (by rw [userId_eq, hfind]; rfl) hid)
      simp [hne]
  · rw [user_updateQuota, Option.map_map]
    cases t.user other with
    | none => rfl
    | some user =>
      simp only [Option.map_some, Function.comp]
      split
      · rfl
      · rfl

/-- `db_add_or_update_file` when it succeeds. -/
theorem Accounted.charge_recorded (ht : t.Accounted) (hid : t.userId username = some id) (filename : Bytes) (size : Nat) :
    t.Charge ((t.upsertFile id filename size).updateQuota id) username filename where
  used := by
    have hkept : ((t.upsertFile id filename size).updateQuota id).userId username = some id := by simpa using hid
    have hwithout := ht.schema.storedBytes_without hid filename
    rw [(ht.recorded id filename size).quotaUsed_eq hkept, ht.quotaUsed_eq hid, ht.schema.fileSize_recorded hid, if_pos ⟨rfl, rfl⟩,
      storedBytes_updateQuota, ht.schema.storedBytes_recorded]
    simp only [Option.getD_some]
    omega
  others := (updateQuota_others ht.schema.upsertFile hid).1
  limits := (updateQuota_others ht.schema.upsertFile hid).2

/-- `db_remove_file` when it succeeds. -/
theorem Accounted.charge_removed (ht : t.Accounted) (hid : t.userId username = some id) (filename : Bytes) :
    t.Charge ((t.deleteFile id filename).updateQuota id) username filename where
  used := by
    have hkept : ((t.deleteFile id filename).updateQuota id).userId username = some id := by simpa using hid
    have hwithout := ht.schema.storedBytes_without hid filename
    rw [(ht.removed id filename).quotaUsed_eq hkept, ht.quotaUsed_eq hid, ht.schema.fileSize_removed hid,
      if_pos ⟨rfl, rfl⟩, storedBytes_updateQuota]
    simp only [Option.getD_some, Option.getD_none]
    omega
  others := (updateQuota_others ht.schema.deleteFile hid).1
  limits := (updateQuota_others ht.schema.deleteFile hid).2

end Stash.Auth.Tables

namespace Stash.Auth
open Foundation.CText
variable {db : Connection}

theorem charge_added (h : db.Sound) (fault : DbFault) (username filename : Bytes) (size : Nat) :
    db.tables.Charge (dbAddOrUpdateFile fault db username filename size).1.tables username filename := by
  rcases dbAddOrUpdateFile_spec fault h.idle username filename size with ⟨id, _, hid, hdone⟩ | ⟨_, hsame, _⟩
  · rw [hdone, h.read hid]
    exact h.accounted.charge_recorded hid filename size
  · rw [hsame]
    exact .refl _ _ _

theorem charge_removed (h : db.Sound) (fault : DbFault) (username filename : Bytes) :
    db.tables.Charge (dbRemoveFile fault db username filename).1.tables username filename := by
  rcases dbRemoveFile_spec fault h.idle username filename with ⟨id, _, hid, _, hdone⟩ | ⟨_, hsame, _⟩
  · rw [hdone, h.read hid]
    exact h.accounted.charge_removed hid filename
  · rw [hsame]
    exact .refl _ _ _

end Stash.Auth
