import Stash.Auth.Database

/-! What recording and removing a file does to the rows and to the quota of its owner. -/
namespace Stash.Auth.Tables
open Foundation.CText

/-- The schema's keys hold, and the quota of every user is what its rows add up to. -/
structure Accounted (t : Tables) : Prop where
  schema : t.Schema
  quota : ∀ user ∈ t.users, user.quotaUsed = t.storedBytes user.id

variable {t : Tables} {id : Int} {size : Nat} {filename : Bytes}

@[simp] theorem userId_upsertFile (username : Bytes) :
    (t.upsertFile id filename size).userId username = t.userId username := rfl

@[simp] theorem userId_deleteFile (username : Bytes) :
    (t.deleteFile id filename).userId username = t.userId username := rfl

@[simp] theorem files_updateQuota : (t.updateQuota id).files = t.files := rfl

@[simp] theorem storedBytes_updateQuota (other : Int) :
    (t.updateQuota id).storedBytes other = t.storedBytes other := rfl

/-- Charging a user changes nothing but its quota. -/
theorem mem_updateQuota {user : User} (h : user ∈ (t.updateQuota id).users) :
    ∃ old ∈ t.users, user.id = old.id := by
  obtain ⟨old, hold, rfl⟩ := List.mem_map.mp h
  refine ⟨old, hold, ?_⟩
  split
  · rfl
  · rfl

private theorem find_charged (users : List User) (bytes : Nat) (username : Bytes) :
    ((users.map fun user => if user.id = id then { user with quotaUsed := bytes } else user).find?
      fun user => user.username = username).map User.id =
    (users.find? fun user => user.username = username).map User.id := by
  induction users with
  | nil => rfl
  | cons user users ih =>
    have hname : (if user.id = id then { user with quotaUsed := bytes } else user).username =
        user.username := by split <;> rfl
    have hid : (if user.id = id then { user with quotaUsed := bytes } else user).id = user.id := by
      split <;> rfl
    rw [List.map_cons, List.find?_cons, List.find?_cons, hname]
    split
    · simp only [Option.map_some, hid]
    · exact ih

@[simp] theorem userId_updateQuota (username : Bytes) :
    (t.updateQuota id).userId username = t.userId username := find_charged t.users _ username

theorem mem_upsertFile {row : FileRow} : row ∈ (t.upsertFile id filename size).files ↔
    row = ⟨id, filename, size⟩ ∨ (row ∈ t.files ∧ ¬ (row.userId = id ∧ row.filename = filename)) := by
  simp only [upsertFile]
  split
  · rename_i hany
    rw [List.mem_map]
    constructor
    · rintro ⟨old, hold, rfl⟩
      split
      · rename_i hkey
        exact .inl (by rw [← hkey.1, ← hkey.2])
      · rename_i hkey
        exact .inr ⟨hold, hkey⟩
    · rintro (rfl | ⟨hmem, hkey⟩)
      · obtain ⟨old, hold, hkey⟩ := List.any_eq_true.mp hany
        have hkey := of_decide_eq_true hkey
        exact ⟨old, hold, by rw [if_pos hkey, ← hkey.1, ← hkey.2]⟩
      · exact ⟨row, hmem, if_neg hkey⟩
  · rename_i hany
    rw [List.mem_append, List.mem_singleton, or_comm]
    apply or_congr_right
    constructor
    · exact fun hmem => ⟨hmem, fun hkey => hany (List.any_eq_true.mpr ⟨row, hmem, decide_eq_true hkey⟩)⟩
    · exact fun h => h.1

theorem mem_deleteFile {row : FileRow} : row ∈ (t.deleteFile id filename).files ↔
    row ∈ t.files ∧ ¬ (row.userId = id ∧ row.filename = filename) := by
  rw [deleteFile, List.mem_filter, decide_eq_true_iff]

/-- The rows of another file are not those that a change under the owner's id is about. -/
theorem Schema.other_row (ht : t.Schema) {owner username other : Bytes} {k : Int} (hid : t.userId owner = some id)
    (hk : t.userId username = some k) (hkey : ¬ (username = owner ∧ other = filename)) :
    ¬ (k = id ∧ other = filename) := by
  rintro ⟨rfl, rfl⟩
  exact hkey ⟨ht.userId_inj hk hid, rfl⟩

/-- The size of a file is that of its one row. -/
theorem Schema.fileSize_eq_some (ht : t.Schema) {username : Bytes} :
    t.fileSize username filename = some size ↔
      ∃ id, t.userId username = some id ∧ ⟨id, filename, size⟩ ∈ t.files := by
  rw [fileSize, Option.bind_eq_some_iff]
  apply exists_congr
  intro id
  apply and_congr_right
  intro _
  constructor
  · intro h
    obtain ⟨row, hfind, rfl⟩ := Option.map_eq_some_iff.mp h
    have hkey : row.userId = id ∧ row.filename = filename := by simpa using List.find?_some hfind
    obtain ⟨rfl, rfl⟩ := hkey
    exact List.mem_of_find?_eq_some hfind
  · intro hmem
    cases hfind : t.files.find? fun row => row.userId = id ∧ row.filename = filename with
    | none => simpa using List.find?_eq_none.mp hfind _ hmem
    | some row =>
      have hkey : row.userId = id ∧ row.filename = filename := by simpa using List.find?_some hfind
      rw [List.inj_on_of_nodup_map ht.rows (List.mem_of_find?_eq_some hfind) hmem
        (Prod.ext hkey.1 hkey.2)]
      rfl

theorem Schema.upsertFile (ht : t.Schema) : (t.upsertFile id filename size).Schema where
  usernames := ht.usernames
  ids := ht.ids
  rows := by
    simp only [Tables.upsertFile]
    split
    · have hkeys : (t.files.map fun row =>
          if row.userId = id ∧ row.filename = filename then { row with size := size } else row).map
            (fun row => (row.userId, row.filename)) = t.files.map fun row => (row.userId, row.filename) := by
        rw [List.map_map]
        apply List.map_congr_left
        intro row _
        simp only [Function.comp]
        split <;> rfl
      rw [hkeys]
      exact ht.rows
    · rename_i hany
      rw [List.map_append, List.nodup_append]
      refine ⟨ht.rows, List.nodup_singleton _, fun key hkey other hother => ?_⟩
      rintro rfl
      obtain ⟨row, hmem, hrow⟩ := List.mem_map.mp hkey
      rw [List.map_singleton, List.mem_singleton, ← hrow] at hother
      obtain ⟨hid, hname⟩ := Prod.mk.inj hother
      exact hany (List.any_eq_true.mpr ⟨row, hmem, decide_eq_true ⟨hid, hname⟩⟩)

theorem Schema.deleteFile (ht : t.Schema) : (t.deleteFile id filename).Schema where
  usernames := ht.usernames
  ids := ht.ids
  rows := ht.rows.sublist (List.filter_sublist.map _)

theorem Schema.updateQuota (ht : t.Schema) : (t.updateQuota id).Schema := by
  have hcolumn {α : Type} (column : User → α)
      (h : ∀ user : User, ∀ bytes, column { user with quotaUsed := bytes } = column user) :
      (t.updateQuota id).users.map column = t.users.map column := by
    rw [Tables.updateQuota, List.map_map]
    apply List.map_congr_left
    intro user _
    simp only [Function.comp]
    split
    · exact h _ _
    · rfl
  refine ⟨?_, ?_, ht.rows⟩
  · rw [hcolumn User.username fun _ _ => rfl]
    exact ht.usernames
  · rw [hcolumn User.id fun _ _ => rfl]
    exact ht.ids

/-- The rows of other users keep their sum. -/
theorem storedBytes_upsertFile {other : Int} (h : other ≠ id) :
    (t.upsertFile id filename size).storedBytes other = t.storedBytes other := by
  have hrows : (t.upsertFile id filename size).files.filter (fun row => row.userId = other) =
      t.files.filter fun row => row.userId = other := by
    simp only [Tables.upsertFile]
    split
    · induction t.files with
      | nil => rfl
      | cons row files ih =>
        rw [List.map_cons, List.filter_cons, List.filter_cons, ih]
        split
        · rename_i hkey
          simp [hkey.1, h.symm]
        · rfl
    · simp [List.filter_append, h.symm]
  rw [storedBytes, storedBytes, hrows]

theorem storedBytes_deleteFile {other : Int} (h : other ≠ id) :
    (t.deleteFile id filename).storedBytes other = t.storedBytes other := by
  have hrows : (t.deleteFile id filename).files.filter (fun row => row.userId = other) =
      t.files.filter fun row => row.userId = other := by
    rw [Tables.deleteFile, List.filter_filter]
    apply List.filter_congr
    intro row _
    by_cases hrow : row.userId = other
    · simp [hrow, h]
    · simp [hrow]
  rw [storedBytes, storedBytes, hrows]

/-- Bringing the quota of one user up to date is enough when the sums of the others stand. -/
theorem Accounted.charge {t' : Tables} (ht : t.Accounted) (hs : t'.Schema) (husers : t'.users = t.users)
    (hothers : ∀ other, other ≠ id → t'.storedBytes other = t.storedBytes other) :
    (t'.updateQuota id).Accounted where
  schema := hs.updateQuota
  quota := by
    intro user hmem
    rw [storedBytes_updateQuota]
    obtain ⟨old, hold, rfl⟩ := List.mem_map.mp hmem
    split
    · rename_i hid
      simp only [hid]
    · rename_i hid
      rw [hothers old.id hid]
      exact ht.quota old (husers ▸ hold)

/-- `db_add_or_update_file` when it succeeds. -/
theorem Accounted.recorded (ht : t.Accounted) (id : Int) (filename : Bytes) (size : Nat) :
    ((t.upsertFile id filename size).updateQuota id).Accounted :=
  ht.charge ht.schema.upsertFile rfl fun _ h => storedBytes_upsertFile h

/-- `db_remove_file` when it succeeds. -/
theorem Accounted.removed (ht : t.Accounted) (id : Int) (filename : Bytes) :
    ((t.deleteFile id filename).updateQuota id).Accounted :=
  ht.charge ht.schema.deleteFile rfl fun _ h => storedBytes_deleteFile h

theorem fileSize_updateQuota (username filename : Bytes) :
    (t.updateQuota id).fileSize username filename = t.fileSize username filename := by
  simp [fileSize]

theorem Schema.fileSize_recorded (ht : t.Schema) {owner : Bytes} (hid : t.userId owner = some id)
    (filename : Bytes) (size : Nat) (username other : Bytes) :
    ((t.upsertFile id filename size).updateQuota id).fileSize username other =
      if username = owner ∧ other = filename then some size else t.fileSize username other := by
  rw [fileSize_updateQuota]
  apply Option.ext
  intro n
  rw [ht.upsertFile.fileSize_eq_some]
  split
  · rename_i hkey
    obtain ⟨rfl, rfl⟩ := hkey
    simp only [userId_upsertFile, hid, mem_upsertFile, FileRow.mk.injEq]
    simp [eq_comm]
  · rename_i hkey
    rw [ht.fileSize_eq_some]
    simp only [userId_upsertFile, mem_upsertFile, FileRow.mk.injEq]
    apply exists_congr
    intro k
    apply and_congr_right
    intro hk
    have hother := ht.other_row hid hk hkey
    simp [hother, ← and_assoc]

theorem Schema.fileSize_removed (ht : t.Schema) {owner : Bytes} (hid : t.userId owner = some id)
    (filename username other : Bytes) :
    ((t.deleteFile id filename).updateQuota id).fileSize username other =
      if username = owner ∧ other = filename then none else t.fileSize username other := by
  rw [fileSize_updateQuota]
  apply Option.ext
  intro n
  rw [ht.deleteFile.fileSize_eq_some]
  split
  · rename_i hkey
    obtain ⟨rfl, rfl⟩ := hkey
    simp only [userId_deleteFile, hid, mem_deleteFile]
    simp
  · rename_i hkey
    rw [ht.fileSize_eq_some]
    simp only [userId_deleteFile, mem_deleteFile]
    apply exists_congr
    intro k
    apply and_congr_right
    intro hk
    have hother := ht.other_row hid hk hkey
    simp [hother]

/-- The rows of a user: filename and size. -/
def filesOf (t : Tables) (id : Int) : List (Bytes × Nat) :=
  (t.files.filter fun row => row.userId = id).map fun row => (row.filename, row.size)

theorem storedBytes_eq (id : Int) : t.storedBytes id = ((t.filesOf id).map Prod.snd).sum := by
  rw [storedBytes, filesOf, List.map_map]
  rfl

theorem mem_filesOf : (filename, size) ∈ t.filesOf id ↔ ⟨id, filename, size⟩ ∈ t.files := by
  rw [filesOf, List.mem_map]
  constructor
  · rintro ⟨row, hrow, heq⟩
    obtain ⟨hmem, hid⟩ := List.mem_filter.mp hrow
    obtain ⟨rfl, rfl⟩ := Prod.mk.inj heq
    rw [← of_decide_eq_true hid]
    exact hmem
  · intro hmem
    exact ⟨_, List.mem_filter.mpr ⟨hmem, decide_eq_true rfl⟩, rfl⟩

theorem Schema.nodup_filesOf (ht : t.Schema) (id : Int) : (t.filesOf id).Nodup := by
  have hrows := List.pairwise_map.mp ht.rows
  rw [filesOf, List.Nodup, List.pairwise_map]
  refine (hrows.filter _).imp_of_mem fun {row other} hrow hother hkey => ?_
  have hid := of_decide_eq_true (List.mem_filter.mp hrow).2
  have hid' := of_decide_eq_true (List.mem_filter.mp hother).2
  rw [hid, hid'] at hkey
  exact fun h => hkey (by rw [(Prod.mk.inj h).1])

/-- The quota of a user and its id come from one row. -/
theorem quotaUsed_eq_some {username : Bytes} {bytes : Nat} (h : t.quotaUsed username = some bytes) :
    ∃ user ∈ t.users, user.quotaUsed = bytes ∧ t.userId username = some user.id := by
  obtain ⟨user, hfind, hquota⟩ := Option.map_eq_some_iff.mp h
  exact ⟨user, List.mem_of_find?_eq_some hfind, hquota, by rw [userId, hfind]; rfl⟩

/-- The quota that is charged to a registered user. -/
theorem Accounted.quotaUsed_eq (ht : t.Accounted) {username : Bytes} (hid : t.userId username = some id) :
    t.quotaUsed username = some (t.storedBytes id) := by
  obtain ⟨user, hfind, rfl⟩ := Option.map_eq_some_iff.mp hid
  rw [quotaUsed, hfind, Option.map_some, ht.quota user (List.mem_of_find?_eq_some hfind)]

/-- Removing a row gives back its size. -/
theorem Schema.storedBytes_removed (ht : t.Schema) (hrow : ⟨id, filename, size⟩ ∈ t.files) :
    (t.deleteFile id filename).storedBytes id + size = t.storedBytes id := by
  have hperm : ((filename, size) :: (t.deleteFile id filename).filesOf id).Perm (t.filesOf id) := by
    refine (List.perm_ext_iff_of_nodup ?_ (ht.nodup_filesOf id)).mpr ?_
    · refine List.nodup_cons.mpr ⟨fun hmem => ?_, ht.deleteFile.nodup_filesOf id⟩
      exact (mem_deleteFile.mp (mem_filesOf.mp hmem)).2 ⟨rfl, rfl⟩
    · rintro ⟨other, bytes⟩
      rw [List.mem_cons, mem_filesOf, mem_filesOf, mem_deleteFile]
      constructor
      · rintro (heq | ⟨hmem, _⟩)
        · obtain ⟨rfl, rfl⟩ := Prod.mk.inj heq
          exact hrow
        · exact hmem
      · intro hmem
        by_cases hname : other = filename
        · subst hname
          have hsame := List.inj_on_of_nodup_map ht.rows hmem hrow rfl
          rw [(FileRow.mk.inj hsame).2.2]
          exact .inl rfl
        · exact .inr ⟨hmem, fun hkey => hname hkey.2⟩
  have hsum := (hperm.map Prod.snd).sum_nat
  rw [List.map_cons, List.sum_cons, ← storedBytes_eq, ← storedBytes_eq] at hsum
  omega

theorem Schema.storedBytes_deleteFile_le (ht : t.Schema) (id : Int) (filename : Bytes) :
    (t.deleteFile id filename).storedBytes id ≤ t.storedBytes id := by
  by_cases hrow : ∃ row ∈ t.files, row.userId = id ∧ row.filename = filename
  · obtain ⟨⟨_, _, size⟩, hmem, rfl, rfl⟩ := hrow
    exact Nat.le.intro (ht.storedBytes_removed hmem)
  · have hsame : t.deleteFile id filename = t := by
      have hfiles : t.files.filter (fun row => ¬ (row.userId = id ∧ row.filename = filename)) = t.files :=
        List.filter_eq_self.mpr fun row hmem => decide_eq_true fun hkey => hrow ⟨row, hmem, hkey⟩
      rw [Tables.deleteFile, hfiles]
    rw [hsame]

/-- Recording a row adds its size to what is left without it. -/
theorem Schema.storedBytes_recorded (ht : t.Schema) (id : Int) (filename : Bytes) (size : Nat) :
    (t.upsertFile id filename size).storedBytes id = (t.deleteFile id filename).storedBytes id + size := by
  have hperm : ((t.upsertFile id filename size).filesOf id).Perm
      ((filename, size) :: (t.deleteFile id filename).filesOf id) := by
    refine (List.perm_ext_iff_of_nodup (ht.upsertFile.nodup_filesOf id) ?_).mpr ?_
    · refine List.nodup_cons.mpr ⟨fun hmem => ?_, ht.deleteFile.nodup_filesOf id⟩
      exact (mem_deleteFile.mp (mem_filesOf.mp hmem)).2 ⟨rfl, rfl⟩
    · rintro ⟨other, bytes⟩
      rw [List.mem_cons, mem_filesOf, mem_filesOf, mem_upsertFile, mem_deleteFile]
      simp
  have hsum := (hperm.map Prod.snd).sum_nat
  rw [List.map_cons, List.sum_cons, ← storedBytes_eq, ← storedBytes_eq] at hsum
  omega

end Stash.Auth.Tables

namespace Stash.Auth
open Foundation.CText

/-- A connection between two transactions whose tables are sound; the ids of the users are
read as they are. -/
structure Connection.Sound (db : Connection) : Prop where
  idle : db.saved = none
  accounted : db.tables.Accounted
  ids : ∀ user ∈ db.tables.users, columnInt user.id = user.id

variable {db : Connection} {owner : Bytes}

theorem Connection.Sound.read (h : db.Sound) {id : Int} (hid : db.tables.userId owner = some id) :
    columnInt id = id := by
  obtain ⟨user, hmem, _, rfl⟩ := Tables.userId_eq_some hid
  exact h.ids user hmem

theorem dbAddOrUpdateFile_sound (fault : DbFault) (h : db.Sound) (howner : (db.tables.userId owner).isSome)
    (filename : Bytes) (size : Nat) :
    (dbAddOrUpdateFile fault db owner filename size).1.Sound ∧ ∀ username other,
      (dbAddOrUpdateFile fault db owner filename size).1.tables.fileSize username other =
        if (username = owner ∧ other = filename) ∧ fault = .none then some size
        else db.tables.fileSize username other := by
  rcases dbAddOrUpdateFile_spec fault h.idle owner filename size with ⟨id, hfault, hid, hdone⟩ | ⟨hfail, hsame, _⟩
  · rw [hdone]
    rw [h.read hid]
    refine ⟨⟨rfl, h.accounted.recorded id filename size, fun user hmem => ?_⟩, fun username other => ?_⟩
    · obtain ⟨old, hold, heq⟩ := Tables.mem_updateQuota hmem
      rw [heq]
      exact h.ids old hold
    · simp only [h.accounted.schema.fileSize_recorded hid, hfault, and_true]
  · have hfault : fault ≠ .none := by
      refine hfail.resolve_right fun hnone => ?_
      rw [hnone] at howner
      cases howner
    rw [hsame]
    exact ⟨h, fun username other => by rw [if_neg fun hc => hfault hc.2]⟩

theorem dbRemoveFile_sound (fault : DbFault) (h : db.Sound) (owner filename : Bytes) :
    (dbRemoveFile fault db owner filename).1.Sound ∧ ∀ username other,
      (dbRemoveFile fault db owner filename).1.tables.fileSize username other =
        if (username = owner ∧ other = filename) ∧ fault = .none then none
        else db.tables.fileSize username other := by
  rcases dbRemoveFile_spec fault h.idle owner filename with ⟨id, hfault, hid, _, hdone⟩ | ⟨hfail, hsame, _⟩
  · rw [hdone]
    rw [h.read hid]
    refine ⟨⟨rfl, h.accounted.removed id filename, fun user hmem => ?_⟩, fun username other => ?_⟩
    · obtain ⟨old, hold, heq⟩ := Tables.mem_updateQuota hmem
      rw [heq]
      exact h.ids old hold
    · simp only [h.accounted.schema.fileSize_removed hid, hfault, and_true]
  · rw [hsame]
    refine ⟨h, fun username other => ?_⟩
    split
    · -- The statement succeeded, so there was no row to remove.
      rename_i hc
      obtain ⟨⟨rfl, rfl⟩, hfault⟩ := hc
      have hnorow := hfail.resolve_left fun hne => hne hfault
      cases hid : db.tables.userId username with
      | none => rw [Tables.fileSize, hid, Option.bind_none]
      | some id =>
        apply Option.eq_none_iff_forall_ne_some.mpr
        intro size hsize
        obtain ⟨other, hother, hmem⟩ := h.accounted.schema.fileSize_eq_some.mp hsize
        exact hnorow other hother _ hmem ⟨(h.read hother).symm, rfl⟩
    · rfl

/-- No file operation registers anybody. -/
theorem userId_dbAddOrUpdateFile (fault : DbFault) (h : db.saved = none) (owner filename : Bytes) (size : Nat)
    (username : Bytes) : (dbAddOrUpdateFile fault db owner filename size).1.tables.userId username = db.tables.userId username := by
  rcases dbAddOrUpdateFile_spec fault h owner filename size with ⟨id, _, _, hdone⟩ | ⟨_, hsame, _⟩
  · rw [hdone, Tables.userId_updateQuota, Tables.userId_upsertFile]
  · rw [hsame]

theorem userId_dbRemoveFile (fault : DbFault) (h : db.saved = none) (owner filename username : Bytes) :
    (dbRemoveFile fault db owner filename).1.tables.userId username = db.tables.userId username := by
  rcases dbRemoveFile_spec fault h owner filename with ⟨id, _, _, _, hdone⟩ | ⟨_, hsame, _⟩
  · rw [hdone, Tables.userId_updateQuota, Tables.userId_deleteFile]
  · rw [hsame]

/-- A row that is there is removed. -/
theorem dbRemoveFile_row (h : db.Sound) {id : Int} {filename : Bytes} {size : Nat}
    (hid : db.tables.userId owner = some id) (hrow : ⟨id, filename, size⟩ ∈ db.tables.files) :
    dbRemoveFile .none db owner filename = (⟨(db.tables.deleteFile id filename).updateQuota id, none⟩, 0) := by
  rcases dbRemoveFile_spec .none h.idle owner filename with ⟨other, _, hother, _, hdone⟩ | ⟨hfail, _, _⟩
  · rw [hid] at hother
    rw [hdone, ← Option.some.inj hother, h.read hid]
  · exact absurd ⟨(h.read hid).symm, rfl⟩ (hfail.resolve_left (by simp) id hid _ hrow)

end Stash.Auth
