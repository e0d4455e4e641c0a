import Mathlib.Algebra.BigOperators.Ring.Finset
import Stash.Auth.MetadataMap
import Stash.Foundation.Tallies

/-! How far concurrent uploads can go over a quota. The check and the commit are two database
calls; in between, an upload is counted by the client thread that waits for it. -/
namespace Stash.Threads
open Auth Foundation.CText Foundation.Runs Foundation.Tallies

/-- Where a client thread is: without a session, between two commands of a session, behind the
quota check of an upload, or with the buffer of an upload that is not committed yet. -/
inductive UploadPhase where
  | free
  | ready (username : Bytes)
  | checked (username filename : Bytes) (filesize : UInt64)
  | inFlight (username filename : Bytes) (filesize : UInt64)

namespace UploadPhase

/-- The user of the session. -/
def username : UploadPhase → Option Bytes
  | .free => none
  | .ready username | .checked username _ _ | .inFlight username _ _ => some username

def serves (u : Bytes) (p : UploadPhase) : Bool := p.username = some u

/-- Bytes of an upload that is under way. -/
def pending (u : Bytes) : UploadPhase → Nat
  | .inFlight username _ filesize => if username = u then filesize.toNat else 0
  | _ => 0

end UploadPhase

inductive UploadEvent (ι : Type*) where
  | login (t : ι) (username : Bytes)
  | logout (t : ι)
  | check (t : ι) (fault : StmtFault) (filename : Bytes) (filesize : UInt64)
  | malloc (t : ι) (success : Bool)
  | commit (t : ι) (fault : DbFault)
  | drop (t : ι)
  | delete (t : ι) (fault : DbFault) (filename : Bytes)

def UploadEvent.thread {ι : Type*} : UploadEvent ι → ι
  | .login t _ | .logout t | .check t _ _ _ | .malloc t _ | .commit t _ | .drop t | .delete t _ _ => t

structure Uploads (ι : Type*) where
  db : Connection
  phase : ι → UploadPhase

namespace Uploads
variable {ι : Type*} [DecidableEq ι]

def setPhase (s : Uploads ι) (t : ι) (p : UploadPhase) : Uploads ι :=
  { s with phase := Function.update s.phase t p }

def setDb (s : Uploads ι) (db : Connection) : Uploads ι := { s with db := db }

def start (db : Connection) : Uploads ι := ⟨db, fun _ => .free⟩

/-- `malloc` fails for more than PTRDIFF_MAX bytes, and may fail for any number of them. A
commit that fails, like an upload that is dropped, leaves the thread between two commands. -/
def step (s : Uploads ι) : UploadEvent ι → Option (Uploads ι)
  | .login t username =>
    match s.phase t with
    | .free => some (s.setPhase t (.ready username))
    | _ => none
  | .logout t =>
    match s.phase t with
    | .ready _ => some (s.setPhase t .free)
    | _ => none
  | .check t fault filename filesize =>
    match s.phase t with
    | .ready username =>
      if userCheckQuota fault s.db.tables username filesize then
        some (s.setPhase t (.checked username filename filesize))
      else some s
    | _ => none
  | .malloc t success =>
    match s.phase t with
    | .checked username filename filesize =>
      if success && filesize.toNat < 2 ^ 63 then some (s.setPhase t (.inFlight username filename filesize))
      else some (s.setPhase t (.ready username))
    | _ => none
  | .commit t fault =>
    match s.phase t with
    | .inFlight username filename filesize =>
      some ((s.setPhase t (.ready username)).setDb
        (dbAddOrUpdateFile fault s.db username filename filesize.toNat).1)
    | _ => none
  | .drop t =>
    match s.phase t with
    | .inFlight username _ _ => some (s.setPhase t (.ready username))
    | _ => none
  | .delete t fault filename =>
    match s.phase t with
    | .ready username => some (s.setDb (dbRemoveFile fault s.db username filename).1)
    | _ => none

/-- The bytes that are charged to the user. -/
def used (s : Uploads ι) (u : Bytes) : Nat := (s.db.tables.quotaUsed u).getD 0

variable [Fintype ι]

/-- The bytes of the user's uploads that are under way. -/
def pending (s : Uploads ι) (u : Bytes) : Nat := ∑ t, (s.phase t).pending u

def sessions (s : Uploads ι) (u : Bytes) : Nat := tally (UploadPhase.serves u) s.phase

/-- No file of another user is recorded under the id of this one. -/
def OwnRows (u : Bytes) (s : Uploads ι) : UploadEvent ι → Prop
  | .commit t fault => fault = .none → ∀ other ∈ (s.phase t).username, other ≠ u →
      ∀ id ∈ s.db.tables.userId other, s.db.tables.userId u ≠ some (columnInt id)
  | _ => True

instance (u : Bytes) (s : Uploads ι) : (e : UploadEvent ι) → Decidable (OwnRows u s e)
  | .commit t fault => inferInstanceAs (Decidable (fault = .none → ∀ other ∈ (s.phase t).username, other ≠ u →
      ∀ id ∈ s.db.tables.userId other, s.db.tables.userId u ≠ some (columnInt id)))
  | .login _ _ | .logout _ | .check _ _ _ _ | .malloc _ _ | .drop _ | .delete _ _ _ => .isTrue trivial

end Uploads

/-- What is charged to a user after a row was recorded under `id`. -/
theorem quotaUsed_recorded {t : Tables} (ht : t.Accounted) {u : Bytes} {key : Int} (hkey : t.userId u = some key)
    (id : Int) (filename : Bytes) (size : Nat) :
    (((t.upsertFile id filename size).updateQuota id).quotaUsed u).getD 0 ≤
      (t.quotaUsed u).getD 0 + if id = key then size else 0 := by
  rw [ht.quotaUsed_eq hkey, (ht.recorded id filename size).quotaUsed_eq (by simpa using hkey)]
  simp only [Tables.storedBytes_updateQuota, Option.getD_some]
  by_cases hid : id = key
  · subst hid
    rw [ht.schema.storedBytes_recorded, if_pos rfl]
    exact Nat.add_le_add_right (ht.schema.storedBytes_deleteFile_le id filename) size
  · rw [Tables.storedBytes_upsertFile (Ne.symm hid)]
    exact Nat.le_add_right _ _

theorem quotaUsed_removed {t : Tables} (ht : t.Accounted) {u : Bytes} {key : Int} (hkey : t.userId u = some key)
    (id : Int) (filename : Bytes) :
    (((t.deleteFile id filename).updateQuota id).quotaUsed u).getD 0 ≤ (t.quotaUsed u).getD 0 := by
  rw [ht.quotaUsed_eq hkey, (ht.removed id filename).quotaUsed_eq (by simpa using hkey)]
  simp only [Tables.storedBytes_updateQuota, Option.getD_some]
  by_cases hid : id = key
  · subst hid
    exact ht.schema.storedBytes_deleteFile_le id filename
  · rw [Tables.storedBytes_deleteFile (Ne.symm hid)]

/-- A check that passes without wrapping around leaves the upload within the limit. -/
theorem userCheckQuota_within {fault : StmtFault} {t : Tables} {u : Bytes} {filesize : UInt64} {limit : Nat}
    (hcheck : userCheckQuota fault t u filesize = true) (hlimit : (t.user u).map User.quotaLimit = some limit)
    (hused : (t.quotaUsed u).getD 0 < 2 ^ 63) (hsize : filesize.toNat < 2 ^ 63) (hfits : limit < 2 ^ 63) :
    (t.quotaUsed u).getD 0 + filesize.toNat ≤ limit := by
  obtain ⟨user, huser, rfl⟩ := Option.map_eq_some_iff.mp hlimit
  have hquota : t.quotaUsed u = some user.quotaUsed := by
    rw [Tables.quotaUsed, ← Tables.user, huser, Option.map_some]
  rw [hquota, Option.getD_some] at hused ⊢
  unfold userCheckQuota at hcheck
  split at hcheck
  · cases hcheck
  · split at hcheck
    · cases hcheck
    · rename_i found hfound
      split at hfound
      · cases hfound
      · obtain rfl := Option.some.inj (huser.symm.trans hfound)
        have hle := UInt64.le_iff_toNat_le.mp (of_decide_eq_true hcheck)
        rw [UInt64.toNat_add, UInt64.toNat_ofNat', UInt64.toNat_ofNat'] at hle
        omega

namespace UploadPhase

/-- Bytes that the user's quota check has let pass and that may still be committed. -/
def outstanding (u : Bytes) : UploadPhase → Nat
  | .checked username _ filesize => if username = u ∧ filesize.toNat < 2 ^ 63 then filesize.toNat else 0
  | p => p.pending u

theorem outstanding_serves (u : Bytes) (p : UploadPhase) (limit : Nat) (h : p.outstanding u ≤ limit) :
    p.outstanding u ≤ (p.serves u).toNat * limit := by
  cases hserves : p.serves u with
  | true => rwa [Bool.toNat_true, Nat.one_mul]
  | false =>
    have hzero : p.outstanding u = 0 := by
      cases p with
      | free => rfl
      | ready username => rfl
      | checked username filename filesize =>
        exact if_neg fun h => of_decide_eq_false hserves (congrArg some h.1)
      | inFlight username filename filesize =>
        exact if_neg fun h => of_decide_eq_false hserves (congrArg some h)
    rw [hzero]
    exact Nat.zero_le _

end UploadPhase

namespace Uploads
variable {ι : Type*} {limit : Nat} {u : Bytes} {s s' : Uploads ι}

theorem each_setPhase [DecidableEq ι] (h : ∀ j, (s.phase j).outstanding u ≤ limit) {t : ι} {p : UploadPhase}
    (hp : p.outstanding u ≤ limit) (j : ι) : ((s.setPhase t p).phase j).outstanding u ≤ limit := by
  by_cases hj : j = t
  · subst hj
    simpa [setPhase] using hp
  · simpa [setPhase, hj] using h j

theorem used_start {db : Connection} {user : User} (huser : db.tables.user u = some user) :
    (start db : Uploads ι).used u = user.quotaUsed := by
  show ((db.tables.user u).map User.quotaUsed).getD 0 = _
  rw [huser, Option.map_some, Option.getD_some]

variable [Fintype ι]

def outstanding (s : Uploads ι) (u : Bytes) : Nat := ∑ t, (s.phase t).outstanding u

/-- The invariant, for at most `k` sessions of the user at a time. -/
structure Bounded (k : Nat) (u : Bytes) (limit : Nat) (s : Uploads ι) : Prop where
  idle : s.db.saved = none
  accounted : s.db.tables.Accounted
  row : (s.db.tables.user u).map User.quotaLimit = some limit
  each : ∀ t, (s.phase t).outstanding u ≤ limit
  total : s.used u + s.outstanding u ≤ k * limit

variable {k : Nat}

theorem pending_le_outstanding (s : Uploads ι) (u : Bytes) : s.pending u ≤ s.outstanding u := by
  apply Finset.sum_le_sum
  intro t _
  cases s.phase t with
  | checked username filename filesize => exact Nat.zero_le _
  | _ => exact Nat.le_refl _

theorem Bounded.within (h : s.Bounded k u limit) : s.used u + s.pending u ≤ k * limit :=
  Nat.le_trans (Nat.add_le_add_left (s.pending_le_outstanding u) _) h.total

/-- A change of the database that is paid for by what is no longer outstanding. -/
private theorem Bounded.setDb (h : s.Bounded k u limit) {db : Connection} (hidle : db.saved = none)
    (haccounted : db.tables.Accounted)
    (hlimit : (db.tables.user u).map User.quotaLimit = (s.db.tables.user u).map User.quotaLimit)
    (extra : Nat) (hused : (db.tables.quotaUsed u).getD 0 ≤ s.used u + extra)
    (htotal : s.used u + extra + s.outstanding u ≤ k * limit) : (s.setDb db).Bounded k u limit where
  idle := hidle
  accounted := haccounted
  row := hlimit.trans h.row
  each := h.each
  total := Nat.le_trans (Nat.add_le_add_right hused _) htotal

theorem Bounded.userId (h : s.Bounded k u limit) : ∃ key, s.db.tables.userId u = some key := by
  obtain ⟨user, huser, _⟩ := Option.map_eq_some_iff.mp h.row
  exact ⟨user.id, by rw [Tables.userId_eq, huser, Option.map_some]⟩

theorem limit_updateQuota (t : Tables) (id : Int) (u : Bytes) :
    ((t.updateQuota id).user u).map User.quotaLimit = (t.user u).map User.quotaLimit :=
  Tables.field_updateQuota (fun _ _ => rfl) u

theorem bounded_start {db : Connection} {user : User} (hidle : db.saved = none) (haccounted : db.tables.Accounted)
    (huser : db.tables.user u = some user) (hused : user.quotaUsed ≤ k * user.quotaLimit) :
    (start db : Uploads ι).Bounded k u user.quotaLimit where
  idle := hidle
  accounted := haccounted
  row := by
    show (db.tables.user u).map User.quotaLimit = _
    rw [huser, Option.map_some]
  each := fun _ => Nat.zero_le _
  total := by
    have hnone : (start db : Uploads ι).outstanding u = 0 := Finset.sum_eq_zero fun _ _ => rfl
    rw [used_start huser, hnone]
    exact hused

private theorem Bounded.delete (h : s.Bounded k u limit) (fault : DbFault) (username filename : Bytes) :
    (s.setDb (dbRemoveFile fault s.db username filename).1).Bounded k u limit := by
  rcases dbRemoveFile_spec fault h.idle username filename with ⟨id, _, _, _, hdone⟩ | ⟨_, hsame, _⟩
  · obtain ⟨key, hkey⟩ := h.userId
    rw [hdone]
    exact h.setDb rfl (h.accounted.removed _ _) (limit_updateQuota _ _ u) 0
      (quotaUsed_removed h.accounted hkey (columnInt id) filename) h.total
  · rw [hsame]
    exact h

variable [DecidableEq ι]

theorem outstanding_setPhase (s : Uploads ι) (t : ι) (p : UploadPhase) (u : Bytes) :
    (s.setPhase t p).outstanding u + (s.phase t).outstanding u = s.outstanding u + p.outstanding u :=
  sum_update (UploadPhase.outstanding u) s.phase t p

/-- One session of the user has nothing outstanding, so the limit is there once more. -/
theorem outstanding_add_limit (h : ∀ t, (s.phase t).outstanding u ≤ limit) {t : ι} (ht : s.phase t = .ready u) :
    s.outstanding u + limit ≤ s.sessions u * limit := by
  have hupdate := sum_update (fun n : Nat => n) (fun j => (s.phase j).outstanding u) t limit
  have hzero : (s.phase t).outstanding u = 0 := by rw [ht]; rfl
  rw [hzero, Nat.add_zero] at hupdate
  rw [outstanding, ← hupdate, sessions, tally, Finset.sum_mul]
  apply Finset.sum_le_sum
  intro j _
  by_cases hj : j = t
  · subst hj
    have hserves : (s.phase j).serves u = true := by rw [ht]; exact decide_eq_true rfl
    rw [Function.update_self, hserves, Bool.toNat_true, Nat.one_mul]
  · rw [Function.update_of_ne hj]
    exact UploadPhase.outstanding_serves u _ limit (h j)

/-- A thread that goes on with less outstanding. -/
private theorem Bounded.setPhase (h : s.Bounded k u limit) {t : ι} {p : UploadPhase}
    (hp : p.outstanding u ≤ (s.phase t).outstanding u) : (s.setPhase t p).Bounded k u limit where
  idle := h.idle
  accounted := h.accounted
  row := h.row
  each := each_setPhase h.each (Nat.le_trans hp (h.each t))
  total := by
    have hsum := s.outstanding_setPhase t p u
    have htotal := h.total
    have hsame : (s.setPhase t p).used u = s.used u := rfl
    omega

private theorem Bounded.check (h : s.Bounded k u limit) (hk : s.sessions u ≤ k) (hfits : k * limit < 2 ^ 63)
    {t : ι} {fault : StmtFault} {username filename : Bytes} {filesize : UInt64} (ht : s.phase t = .ready username)
    (hcheck : userCheckQuota fault s.db.tables username filesize = true) :
    (s.setPhase t (.checked username filename filesize)).Bounded k u limit := by
  by_cases hcounts : username = u ∧ filesize.toNat < 2 ^ 63
  · obtain ⟨rfl, hsize⟩ := hcounts
    have hroom := outstanding_add_limit h.each ht
    have hsessions : s.sessions username * limit ≤ k * limit := Nat.mul_le_mul_right limit hk
    have htotal := h.total
    have hwithin := userCheckQuota_within hcheck h.row (show s.used username < 2 ^ 63 by omega) hsize (by omega)
    have hout : (UploadPhase.checked username filename filesize).outstanding username = filesize.toNat :=
      if_pos ⟨rfl, hsize⟩
    have hsum := s.outstanding_setPhase t (.checked username filename filesize) username
    rw [hout] at hsum
    refine ⟨h.idle, h.accounted, h.row, each_setPhase h.each ?_, ?_⟩
    · rw [hout]
      omega
    · have hsame : (s.setPhase t (.checked username filename filesize)).used username = s.used username := rfl
      have hused : s.used username = (s.db.tables.quotaUsed username).getD 0 := rfl
      omega
  · refine h.setPhase ?_
    have hout : (UploadPhase.checked username filename filesize).outstanding u = 0 := if_neg hcounts
    rw [hout]
    exact Nat.zero_le _

private theorem Bounded.commit (h : s.Bounded k u limit) {t : ι} {fault : DbFault} {username filename : Bytes}
    {filesize : UInt64} (ht : s.phase t = .inFlight username filename filesize) (hown : OwnRows u s (.commit t fault)) :
    ((s.setPhase t (.ready username)).setDb
      (dbAddOrUpdateFile fault s.db username filename filesize.toNat).1).Bounded k u limit := by
  have hmoved : (s.setPhase t (.ready username)).Bounded k u limit := h.setPhase (Nat.zero_le _)
  rcases dbAddOrUpdateFile_spec fault h.idle username filename filesize.toNat with
    ⟨id, rfl, hid, hdone⟩ | ⟨_, hsame, _⟩
  · obtain ⟨key, hkey⟩ := h.userId
    rw [hdone]
    refine hmoved.setDb rfl (h.accounted.recorded _ _ _) (limit_updateQuota _ _ u) _
      (quotaUsed_recorded h.accounted hkey (columnInt id) filename filesize.toNat) ?_
    have hsum := s.outstanding_setPhase t (.ready username) u
    have hready : (UploadPhase.ready username).outstanding u = 0 := rfl
    have htotal := h.total
    have hused : (s.setPhase t (.ready username)).used u = s.used u := rfl
    rw [ht, hready] at hsum
    by_cases hu : username = u
    · have hout : (UploadPhase.inFlight username filename filesize).outstanding u = filesize.toNat := if_pos hu
      rw [hout] at hsum
      split
      · omega
      · omega
    · have hserves : (s.phase t).username = some username := by rw [ht]; rfl
      have hother : columnInt id ≠ key := fun heq => hown rfl username hserves hu id hid (heq ▸ hkey)
      rw [if_neg hother]
      omega
  · rw [hsame]
    exact hmoved

theorem bounded_step (hfits : k * limit < 2 ^ 63) (h : s.Bounded k u limit) {e : UploadEvent ι}
    (he : OwnRows u s e ∧ s.sessions u ≤ k) (hstep : s.step e = some s') : s'.Bounded k u limit := by
  cases e with
  | login t username =>
    simp only [step] at hstep
    split at hstep
    · exact Option.some.inj hstep ▸ h.setPhase (Nat.zero_le _)
    · cases hstep
  | logout t =>
    simp only [step] at hstep
    split at hstep
    · exact Option.some.inj hstep ▸ h.setPhase (Nat.zero_le _)
    · cases hstep
  | check t fault filename filesize =>
    simp only [step] at hstep
    split at hstep
    · rename_i username ht
      split at hstep
      · rename_i hcheck
        exact Option.some.inj hstep ▸ h.check he.2 hfits ht hcheck
      · exact Option.some.inj hstep ▸ h
    · cases hstep
  | malloc t success =>
    simp only [step] at hstep
    split at hstep
    · rename_i username filename filesize ht
      split at hstep
      · -- The buffer is there, so the size was counted at the check.
        rename_i hmalloc
        have hsize : filesize.toNat < 2 ^ 63 := of_decide_eq_true (Bool.and_eq_true_iff.mp hmalloc).2
        refine Option.some.inj hstep ▸ h.setPhase ?_
        rw [ht]
        simp only [UploadPhase.outstanding, UploadPhase.pending, hsize, and_true, Nat.le_refl]
      · exact Option.some.inj hstep ▸ h.setPhase (Nat.zero_le _)
    · cases hstep
  | commit t fault =>
    simp only [step] at hstep
    split at hstep
    · rename_i username filename filesize ht
      exact Option.some.inj hstep ▸ h.commit ht he.1
    · cases hstep
  | drop t =>
    simp only [step] at hstep
    split at hstep
    · exact Option.some.inj hstep ▸ h.setPhase (Nat.zero_le _)
    · cases hstep
  | delete t fault filename =>
    simp only [step] at hstep
    split at hstep
    · rename_i username ht
      exact Option.some.inj hstep ▸ h.delete fault username filename
    · cases hstep

end Uploads

open Uploads in
/-- With `N` client threads a user's committed bytes and uploads under way stay within `N` times
its quota limit, and with one session of the user at a time within the limit itself, in every run
in which no other user's files are kept under the user's id. -/
theorem quota_overshoot_bounded (ι : Type*) [Fintype ι] [DecidableEq ι] (db : Connection) (u : Bytes) (user : User)
    (hidle : db.saved = none) (haccounted : db.tables.Accounted) (huser : db.tables.user u = some user)
    (hused : user.quotaUsed ≤ Fintype.card ι * user.quotaLimit) (hfits : Fintype.card ι * user.quotaLimit < 2 ^ 63)
    (events : List (UploadEvent ι)) (hown : Along Uploads.step (OwnRows u) (start db) events) :
    Always Uploads.step (fun s => s.used u + s.pending u ≤ Fintype.card ι * user.quotaLimit ∧
      s.used u ≤ user.quotaLimit + (Fintype.card ι - 1) * user.quotaLimit) (start db) events ∧
    (user.quotaUsed ≤ user.quotaLimit → Along Uploads.step (fun s _ => s.sessions u ≤ 1) (start db) events →
      Always Uploads.step (fun s => s.used u ≤ user.quotaLimit) (start db) events) := by
  constructor
  · have hall : Along Uploads.step (fun s _ => s.sessions u ≤ Fintype.card ι) (start db) events :=
      along_of_forall (fun s : Uploads ι => fun _ => tally_le_card (UploadPhase.serves u) s.phase) _ _
    refine (Along.always (fun _ _ _ h he hs => bounded_step hfits h he hs) (bounded_start hidle haccounted huser hused)
      (hown.and hall)).mono fun s hs => ⟨hs.within, ?_⟩
    have hwithin := hs.within
    cases hcard : Fintype.card ι with
    | zero =>
      rw [hcard] at hwithin
      omega
    | succ n =>
      rw [hcard, Nat.succ_mul] at hwithin
      rw [Nat.add_sub_cancel]
      omega
  · intro hone hsingle
    cases hcard : Fintype.card ι with
    | zero =>
      -- Without a client thread there are no events.
      have hempty : IsEmpty ι := Fintype.card_eq_zero_iff.mp hcard
      have hstart : (start db : Uploads ι).used u ≤ user.quotaLimit := by
        rw [used_start huser]
        exact hone
      exact always_of_step (fun s e t _ _ => isEmptyElim e.thread) events hstart
    | succ n =>
      rw [hcard, Nat.succ_mul] at hfits
      have hlimit : 1 * user.quotaLimit < 2 ^ 63 := by omega
      have hfirst : (start db : Uploads ι).Bounded 1 u user.quotaLimit :=
        bounded_start hidle haccounted huser (by omega)
      have hbounded := Along.always (fun _ _ _ h he hs => bounded_step hlimit h he hs) hfirst (hown.and hsingle)
      refine hbounded.mono fun s hs => ?_
      have hwithin := hs.within
      omega

def aliceAlone : Tables := ⟨[⟨1, ascii "alice", [], 0, 104857600⟩], []⟩

/-- Two sessions check before either commits. -/
def twoUploads : List (UploadEvent Bool) :=
  [.login false (ascii "alice"), .login true (ascii "alice"), .check false .none (ascii "a") 104857600,
    .check true .none (ascii "b") 104857600, .malloc false true, .malloc true true, .commit false .none,
    .commit true .none]

theorem quota_overshoot_two_uploads :
    Always Uploads.step (fun s => s.used (ascii "alice") + s.pending (ascii "alice") ≤ 2 * 104857600 ∧
      s.used (ascii "alice") ≤ 104857600 + (2 - 1) * 104857600) (.start ⟨aliceAlone, none⟩) twoUploads :=
  (quota_overshoot_bounded Bool ⟨aliceAlone, none⟩ (ascii "alice") ⟨1, ascii "alice", [], 0, 104857600⟩ rfl
    ⟨⟨by decide, by decide, by decide⟩, by decide⟩ (by decide) (by decide) (by decide) twoUploads
    (by decide +kernel)).1

section
open Uploads
variable {t : Tables} {w : Bytes} {id : Int} {filename : Bytes} {filesize : UInt64}

/-- The events of one upload that goes through. -/
def uploadEvents (filename : Bytes) (filesize : UInt64) : List (UploadEvent Unit) :=
  [.check () .none filename filesize, .malloc () true, .commit () .none]

theorem run_uploadEvents (hid : t.userId w = some id) (hcheck : userCheckQuota .none t w filesize = true)
    (hsize : filesize.toNat < 2 ^ 63) :
    run Uploads.step ⟨⟨t, none⟩, fun _ => .ready w⟩ (uploadEvents filename filesize) =
      some ⟨⟨(t.upsertFile (columnInt id) filename filesize.toNat).updateQuota (columnInt id), none⟩,
        fun _ => .ready w⟩ := by
  have hdone : (dbAddOrUpdateFile .none ⟨t, none⟩ w filename filesize.toNat).1 =
      ⟨(t.upsertFile (columnInt id) filename filesize.toNat).updateQuota (columnInt id), none⟩ := by
    rcases dbAddOrUpdateFile_spec .none (show (⟨t, none⟩ : Connection).saved = none from rfl) w filename
        filesize.toNat with
      ⟨_, _, hother, hdone⟩ | ⟨hfail, _, _⟩
    · rw [hdone, ← Option.some.inj (hid.symm.trans hother)]
    · rw [hfail.resolve_left (fun hf => hf rfl)] at hid
      cases hid
  simp only [uploadEvents, run, step, hcheck, if_pos, Option.bind_some, setPhase, setDb, Bool.true_and,
    hsize, decide_true, hdone, Function.update_self]
  congr 2

end

section
open Uploads

/-- Two uploads in one session. -/
def uploadTwice (w : Bytes) : List (UploadEvent Unit) :=
  .login () w :: (uploadEvents (ascii "a") 104857600 ++ uploadEvents (ascii "b") 104857600)

theorem storedBytes_two_files {t : Tables} (hfiles : t.files = []) (id : Int) :
    ((t.upsertFile id (ascii "a") 104857600).upsertFile id (ascii "b") 104857600).storedBytes id = 209715200 := by
  have hfirst : (t.upsertFile id (ascii "a") 104857600).files = [⟨id, ascii "a", 104857600⟩] := by
    simp [Tables.upsertFile, hfiles]
  have hname : ascii "a" ≠ ascii "b" := by decide
  have hsecond : ((t.upsertFile id (ascii "a") 104857600).upsertFile id (ascii "b") 104857600).files =
      [⟨id, ascii "a", 104857600⟩, ⟨id, ascii "b", 104857600⟩] := by
    rw [Tables.upsertFile, hfirst]
    simp [hname]
  simp [Tables.storedBytes, hsecond]

/-- An account whose id is narrowed to another one's is never charged; the other one is. -/
theorem not_bounded_of_narrowed {t : Tables} (ht : t.Accounted) (hfiles : t.files = []) {v w : User}
    (hv : t.userId v.username = some v.id) (hw : t.user w.username = some w) (hused : w.quotaUsed = 0)
    (hlimit : w.quotaLimit = 104857600) (hnarrow : columnInt w.id = v.id) (hne : w.id ≠ v.id) :
    ¬ Always Uploads.step (fun s => s.used v.username + s.pending v.username ≤ 1 * 104857600)
      (.start ⟨t, none⟩) (uploadTwice w.username) := by
  intro halways
  have hid : ∀ t' : Tables, t'.user w.username = some w → t'.userId w.username = some w.id := by
    intro t' hsame
    rw [Tables.userId_eq, hsame, Option.map_some]
  have hcheck : ∀ t' : Tables, t'.user w.username = some w → userCheckQuota .none t' w.username 104857600 = true := by
    intro t' hsame
    simp [userCheckQuota, hsame, hused, hlimit]
  have huploaded : ∀ t' : Tables, t'.user w.username = some w → ∀ filename,
      run Uploads.step ⟨⟨t', none⟩, fun _ => .ready w.username⟩ (uploadEvents filename 104857600) =
        some ⟨⟨(t'.upsertFile v.id filename 104857600).updateQuota v.id, none⟩, fun _ => .ready w.username⟩ ∧
      ((t'.upsertFile v.id filename 104857600).updateQuota v.id).user w.username = some w := by
    intro t' hsame filename
    refine ⟨hnarrow ▸ run_uploadEvents (hid t' hsame) (hcheck t' hsame) (by decide), ?_⟩
    have hrow : (t'.upsertFile v.id filename 104857600).user w.username = some w := hsame
    rw [Tables.user_updateQuota, hrow, Option.map_some, if_neg hne]
  obtain ⟨hfirst, hw'⟩ := huploaded t hw (ascii "a")
  obtain ⟨hsecond, _⟩ := huploaded _ hw' (ascii "b")
  have hlogin : (start ⟨t, none⟩ : Uploads Unit).step (.login () w.username) =
      some ⟨⟨t, none⟩, fun _ => .ready w.username⟩ := rfl
  have hrun : run Uploads.step (start ⟨t, none⟩) (uploadTwice w.username) =
      some ⟨⟨(((t.upsertFile v.id (ascii "a") 104857600).updateQuota v.id).upsertFile v.id (ascii "b")
        104857600).updateQuota v.id, none⟩, fun _ => .ready w.username⟩ := by
    rw [uploadTwice, run, hlogin, Option.bind_some, run_append, hfirst, Option.bind_some, hsecond]
  have hquota := ((ht.recorded v.id (ascii "a") 104857600).recorded v.id (ascii "b") 104857600).quotaUsed_eq
    (show Tables.userId _ v.username = some v.id by simpa using hv)
  have hbytes : Tables.storedBytes ((((t.upsertFile v.id (ascii "a") 104857600).updateQuota v.id).upsertFile v.id
      (ascii "b") 104857600).updateQuota v.id) v.id = 209715200 := storedBytes_two_files hfiles v.id
  have hlast := Nat.le_trans (Nat.le_add_right _ _) (halways.last hrun)
  simp only [used, hquota, hbytes, Option.getD_some] at hlast
  omega

end

/-- Behind 2^32 other accounts an account gets an id that `int user_id` narrows to 1: its one
session stays within its own quota of 0 bytes used, and fills the first account's beyond the limit. -/
theorem overshoot_under_narrowed_id :
    ∃ s, run Ledger.step .fresh (signups 4294967297) = some s ∧
      (∃ user, s.db.tables.user (numberedName 0) = some user ∧ user.quotaUsed = 0 ∧ user.quotaLimit = 104857600) ∧
      ¬ Always Uploads.step (fun s => s.used (numberedName 0) + s.pending (numberedName 0) ≤ 1 * 104857600)
        (.start s.db) (uploadTwice (numberedName 4294967296)) := by
  obtain ⟨s, hrun, hkept, hdb⟩ := run_signups (n := 4294967297) (by norm_num)
  have hfirst := user_of_signups hkept hdb (i := 0) (by norm_num)
  have hlast := user_of_signups hkept hdb (i := 4294967296) (by norm_num)
  refine ⟨s, hrun, ⟨_, hfirst, rfl, rfl⟩, ?_⟩
  have hid : s.db.tables.userId (numberedName 0) = some 1 := by
    rw [Tables.userId_eq, hfirst, Option.map_some]
    rfl
  have hstart : s.db = ⟨s.db.tables, none⟩ := by rw [← hkept.idle]
  have hfiles : s.db.tables.files = [] := by rw [hdb]
  rw [hstart]
  exact not_bounded_of_narrowed (v := ⟨1, numberedName 0, [], 0, 104857600⟩) 
    (w := ⟨4294967297, numberedName 4294967296, [], 0, 104857600⟩) hkept.accounted hfiles hid hlast rfl rfl
    (by decide) (by decide)

end Stash.Threads
