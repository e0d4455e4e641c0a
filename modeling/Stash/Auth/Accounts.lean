import Stash.Auth.FileRows

/-! The statements on the table of users outside the file transactions: creating an account,
looking one up, and bringing its quota up to date. -/
namespace Stash.Auth
open Foundation.CText

/-- The call of a single statement that does not succeed. -/
inductive StmtFault where
  | none
  | prepare
  | step
  deriving DecidableEq, Repr

namespace Tables

/-- The id that AUTOINCREMENT gives out next. No user is ever deleted. -/
def nextUserId (t : Tables) : Int := (t.users.map User.id).foldl max 0 + 1

/-- `INSERT INTO users (username, password_hash) VALUES (?, ?)` with the defaults of the schema. -/
def insertUser (t : Tables) (username passwordHash : Bytes) : Tables :=
  { t with users := t.users ++ [⟨t.nextUserId, username, passwordHash, 0, 104857600⟩] }

/-- `UPDATE users SET quota_used = (..) WHERE username = ?`, which reads `users.id` itself. -/
def updateQuotaOf (t : Tables) (username : Bytes) : Tables :=
  { t with users := t.users.map fun user =>
      if user.username = username then { user with quotaUsed := t.storedBytes user.id } else user }

def user (t : Tables) (username : Bytes) : Option User := t.users.find? fun user => user.username = username

end Tables

/-- `db_create_user`; an id that does not fit 64 bits is SQLITE_FULL. -/
def dbCreateUser (fault : StmtFault) (db : Connection) (username passwordHash : Bytes) : Connection × Int :=
  if fault = .prepare then (db, -1)
  else if fault = .step then (db, -1)
  else if 2 ^ 63 ≤ db.tables.nextUserId then (db, -1)
  else if (db.tables.user username).isSome then (db, -2)
  else (db.exec fun t => t.insertUser username passwordHash, 0)

/-- `db_update_user_quota` -/
def dbUpdateUserQuota (fault : StmtFault) (db : Connection) (username : Bytes) : Connection × Int :=
  if fault = .prepare then (db, -1)
  else if fault = .step then (db, -1)
  else (db.exec fun t => t.updateQuotaOf username, 0)

/-- `db_verify_password` behind `user_verify_password`; a step that fails finds no row. -/
def userVerifyPassword (fault : StmtFault) (t : Tables) (username passwordHash : Bytes) : Int :=
  if fault = .prepare then -1
  else
    match if fault = .step then none else t.user username with
    | none => -2
    | some user => if user.passwordHash = passwordHash then 0 else -3

/-- `db_check_quota` behind `user_check_quota`: the sum is one of 64-bit unsigned numbers. -/
def userCheckQuota (fault : StmtFault) (t : Tables) (username : Bytes) (additionalBytes : UInt64) : Bool :=
  if fault = .prepare then false
  else
    match if fault = .step then none else t.user username with
    | none => false
    | some user => decide (UInt64.ofNat user.quotaUsed + additionalBytes ≤ UInt64.ofNat user.quotaLimit)

/-- `user_signup`, where `hashPassword` is the digest in hexadecimal. The name is looked up in one
statement and the account created in another, so the tables may have changed in between. -/
def userSignup (hashPassword : Bytes → Bytes) (prepared : Bool) (fault : StmtFault) (lookedUp : Tables)
    (db : Connection) (username password : Bytes) : Connection × Int :=
  if userExists prepared lookedUp username then (db, -2)
  else dbCreateUser fault db username (hashPassword password)

/-- `user_login` -/
def userLogin (hashPassword : Bytes → Bytes) (fault : StmtFault) (t : Tables) (username password : Bytes) : Int :=
  userVerifyPassword fault t username (hashPassword password)

namespace Tables
variable {t : Tables} {username : Bytes}

theorem userId_eq (t : Tables) (username : Bytes) : t.userId username = (t.user username).map User.id := rfl

theorem user_eq_some {user : User} (h : t.user username = some user) :
    user ∈ t.users ∧ user.username = username :=
  ⟨List.mem_of_find?_eq_some h, by simpa using List.find?_some h⟩

theorem Schema.user_of_mem (ht : t.Schema) {user : User} (h : user ∈ t.users) :
    t.user user.username = some user := by
  cases hfind : t.user user.username with
  | none => simpa using List.find?_eq_none.mp hfind user h
  | some other =>
    obtain ⟨hmem, hname⟩ := user_eq_some hfind
    rw [List.inj_on_of_nodup_map ht.usernames hmem h hname]

theorem user_eq_none : t.user username = none ↔ ∀ user ∈ t.users, user.username ≠ username := by
  simp [user, List.find?_eq_none]

/-- The next id is larger than all that were given out. -/
theorem lt_nextUserId {user : User} (h : user ∈ t.users) : user.id < t.nextUserId := by
  suffices hle : ∀ ids : List Int, ∀ top, top ≤ ids.foldl max top ∧ ∀ id ∈ ids, id ≤ ids.foldl max top from
    Int.lt_add_one_of_le ((hle _ 0).2 _ (List.mem_map_of_mem h))
  intro ids
  induction ids with
  | nil => exact fun top => ⟨Int.le_refl top, nofun⟩
  | cons first ids ih =>
    intro top
    obtain ⟨hstart, hrest⟩ := ih (max top first)
    refine ⟨Int.le_trans (Int.le_max_left _ _) hstart, fun id hid => ?_⟩
    rcases List.mem_cons.mp hid with rfl | hid
    · exact Int.le_trans (Int.le_max_right _ _) hstart
    · exact hrest id hid

theorem user_insertUser (hname : t.user username = none) (passwordHash other : Bytes) :
    (t.insertUser username passwordHash).user other =
      if other = username then some ⟨t.nextUserId, username, passwordHash, 0, 104857600⟩ else t.user other := by
  rw [user, insertUser, List.find?_append, List.find?_singleton]
  by_cases h : other = username
  · subst h
    have hnone : t.users.find? (fun user => user.username = other) = none := hname
    simp [hnone]
  · simp [user, h, Ne.symm h]

theorem user_updateQuota (id : Int) (other : Bytes) : (t.updateQuota id).user other = (t.user other).map fun user =>
    if user.id = id then { user with quotaUsed := t.storedBytes id } else user := by
  rw [user, updateQuota, List.find?_map]
  congr 2
  funext user
  simp only [Function.comp]
  split <;> rfl

theorem user_updateQuotaOf (username other : Bytes) :
    (t.updateQuotaOf username).user other = (t.user other).map fun user =>
      if user.username = username then { user with quotaUsed := t.storedBytes user.id } else user := by
  rw [user, updateQuotaOf, List.find?_map]
  congr 2
  funext user
  simp only [Function.comp]
  split <;> rfl

theorem Schema.insertUser (ht : t.Schema) (hname : t.user username = none) (passwordHash : Bytes) :
    (t.insertUser username passwordHash).Schema where
  usernames := by
    rw [Tables.insertUser, List.map_append, List.nodup_append]
    refine ⟨ht.usernames, List.nodup_singleton _, fun name hmem other hother => ?_⟩
    rintro rfl
    obtain ⟨user, huser, rfl⟩ := List.mem_map.mp hmem
    exact user_eq_none.mp hname user huser (List.mem_singleton.mp hother)
  ids := by
    rw [Tables.insertUser, List.map_append, List.nodup_append]
    refine ⟨ht.ids, List.nodup_singleton _, fun id hmem other hother => ?_⟩
    rintro rfl
    obtain ⟨user, huser, rfl⟩ := List.mem_map.mp hmem
    exact absurd (List.mem_singleton.mp hother) (Int.ne_of_lt (lt_nextUserId huser))
  rows := ht.rows

/-- Every row belongs to a user. -/
def Owned (t : Tables) : Prop := ∀ row ∈ t.files, ∃ user ∈ t.users, user.id = row.userId

theorem Owned.insertUser (h : t.Owned) (username passwordHash : Bytes) :
    (t.insertUser username passwordHash).Owned := by
  intro row hrow
  obtain ⟨user, huser, hid⟩ := h row hrow
  exact ⟨user, List.mem_append_left _ huser, hid⟩

theorem Owned.updateQuota (h : t.Owned) (id : Int) : (t.updateQuota id).Owned := by
  intro row hrow
  obtain ⟨user, huser, hid⟩ := h row hrow
  refine ⟨_, List.mem_map_of_mem huser, ?_⟩
  split
  · exact hid
  · exact hid

theorem Owned.upsertFile (h : t.Owned) {user : User} (huser : user ∈ t.users) (filename : Bytes) (size : Nat) :
    (t.upsertFile user.id filename size).Owned := by
  intro row hrow
  rcases mem_upsertFile.mp hrow with rfl | ⟨hold, _⟩
  · exact ⟨user, huser, rfl⟩
  · exact h row hold

theorem Owned.deleteFile (h : t.Owned) (id : Int) (filename : Bytes) : (t.deleteFile id filename).Owned :=
  fun row hrow => h row (mem_deleteFile.mp hrow).1

/-- A new account has no rows and is charged nothing. -/
theorem Accounted.inserted (ht : t.Accounted) (howned : t.Owned) (hname : t.user username = none)
    (passwordHash : Bytes) : (t.insertUser username passwordHash).Accounted where
  schema := ht.schema.insertUser hname passwordHash
  quota := by
    intro user hmem
    rcases List.mem_append.mp hmem with hold | hnew
    · exact ht.quota user hold
    · rw [List.mem_singleton.mp hnew]
      have hnone : t.files.filter (fun row => row.userId = t.nextUserId) = [] := by
        refine List.filter_eq_nil_iff.mpr fun row hrow hid => ?_
        obtain ⟨owner, howner, hsame⟩ := howned row hrow
        exact absurd (hsame.trans (of_decide_eq_true hid)) (Int.ne_of_lt (lt_nextUserId howner))
      show 0 = ((t.files.filter fun row => row.userId = t.nextUserId).map FileRow.size).sum
      rw [hnone]
      rfl

/-- Where all quotas are up to date, bringing one up to date changes nothing. -/
theorem Accounted.updateQuotaOf (ht : t.Accounted) (username : Bytes) : t.updateQuotaOf username = t := by
  have husers : t.users.map (fun user =>
      if user.username = username then { user with quotaUsed := t.storedBytes user.id } else user) = t.users := by
    conv_rhs => rw [← List.map_id t.users]
    apply List.map_congr_left
    intro user hmem
    split
    · rw [← ht.quota user hmem]
      rfl
    · rfl
  rw [Tables.updateQuotaOf, husers]

end Tables

/-- What `db_create_user` tells and what it leaves. -/
theorem dbCreateUser_cases (fault : StmtFault) (db : Connection) (username passwordHash : Bytes) :
    (fault = .none ∧ db.tables.nextUserId < 2 ^ 63 ∧ db.tables.user username = none ∧
      dbCreateUser fault db username passwordHash = (db.exec fun t => t.insertUser username passwordHash, 0)) ∨
    (fault = .none ∧ db.tables.nextUserId < 2 ^ 63 ∧ (db.tables.user username).isSome ∧
      dbCreateUser fault db username passwordHash = (db, -2)) ∨
    ((fault ≠ .none ∨ 2 ^ 63 ≤ db.tables.nextUserId) ∧
      dbCreateUser fault db username passwordHash = (db, -1)) := by
  cases fault with
  | none =>
    have hopen : dbCreateUser .none db username passwordHash =
        if 2 ^ 63 ≤ db.tables.nextUserId then (db, -1)
        else if (db.tables.user username).isSome then (db, -2)
        else (db.exec fun t => t.insertUser username passwordHash, 0) := rfl
    rw [hopen]
    by_cases hfull : 2 ^ 63 ≤ db.tables.nextUserId
    · exact .inr (.inr ⟨.inr hfull, if_pos hfull⟩)
    · rw [if_neg hfull]
      cases hname : db.tables.user username with
      | none => exact .inl ⟨rfl, Int.not_le.mp hfull, rfl, rfl⟩
      | some user => exact .inr (.inl ⟨rfl, Int.not_le.mp hfull, rfl, rfl⟩)
  | prepare => exact .inr (.inr ⟨.inl (by decide), rfl⟩)
  | step => exact .inr (.inr ⟨.inl (by decide), rfl⟩)

/-- A login that returns 0 was made with the password whose hash is stored. -/
theorem userLogin_stored {hashPassword : Bytes → Bytes} {fault : StmtFault} {t : Tables} {username password : Bytes}
    (h : userLogin hashPassword fault t username password = 0) :
    (t.user username).map User.passwordHash = some (hashPassword password) := by
  unfold userLogin userVerifyPassword at h
  split at h
  · cases h
  · split at h
    · cases h
    · rename_i user hfound
      split at hfound
      · cases hfound
      · split at h
        · rename_i hsame
          rw [hfound, Option.map_some, hsame]
        · cases h

end Stash.Auth
