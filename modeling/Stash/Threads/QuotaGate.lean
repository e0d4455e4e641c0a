import Stash.Auth.Accounts
import Stash.Threads.Segmentation

/-! The quota check on the header of an upload: which sums of 64-bit numbers it gets right. -/
namespace Stash.Threads
open Foundation.CText Auth

def quotaExceeded : Output := .sent (ascii "UPLOAD ERROR: Quota exceeded\n")

/-- The loop does not answer that the quota is exceeded. -/
def PastCheck (env : Env) (client : Client) (chunk : Bytes) (l : Loop) : Prop :=
  handleCommand env client chunk l ≠ .again (l.emit quotaExceeded)

/-- The check asks the database as it stands in `t`, and the query does not fail. -/
def ReadsQuota (env : Env) (client : Client) (out : List Output) (t : Tables) : Prop :=
  ∀ n, env.checkQuota out n = userCheckQuota .none t client.username n

/-- The check of a command decides as the sum of natural numbers does. -/
def QuotaExact (env : Env) (client : Client) (chunk : Bytes) (l : Loop) (user : User) (filesize : UInt64) : Prop :=
  PastCheck env client chunk l ↔ user.quotaUsed + filesize.toNat ≤ user.quotaLimit

/-- Behind the check, the first thing that the loop does is something else. -/
theorem queueUpload_output (env : Env) (client : Client) (filename : Bytes) (filesize : UInt64) (chunk : Bytes)
    (l : Loop) : ∃ o, o ≠ quotaExceeded ∧ l.output ++ [o] <+:
      (queueUpload env client filename filesize l (receiveUpload filesize.toNat chunk l.input)).loop.output := by
  cases hreceive : receiveUpload filesize.toNat chunk l.input with
  | mk result input =>
    cases result with
    | error text =>
      refine ⟨.sent text, ?_, List.prefix_refl _⟩
      rcases receiveUpload_error hreceive with rfl | rfl
      · decide
      · decide
    | ok data =>
      rw [queueUpload, submit]
      split
      · exact ⟨.queued _, by simp [quotaExceeded], sendResponse_output env ((l.rest input).emit _)⟩
      · exact ⟨_, by decide, List.prefix_refl _⟩

theorem pastCheck_iff {env : Env} {client : Client} {chunk filename : Bytes} {l : Loop} {filesize : UInt64}
    (hparse : parseCommand (cstr chunk) = .upload filename filesize) :
    PastCheck env client chunk l ↔ env.checkQuota l.output filesize = true := by
  simp only [PastCheck, handleCommand, hparse]
  cases env.checkQuota l.output filesize with
  | false => simp [quotaExceeded]
  | true =>
    rw [if_neg (by decide)]
    refine iff_of_true (fun heq => ?_) rfl
    split at heq
    · have hout := congrArg (fun next : Next => next.loop.output) heq
      simp [Next.loop, quotaExceeded] at hout
      revert hout
      decide
    · obtain ⟨o, hne, hprefix⟩ := queueUpload_output env client filename filesize chunk l
      rw [heq] at hprefix
      have hsame := List.IsPrefix.eq_of_length hprefix (by simp [Next.loop])
      simp only [Next.loop, Loop.emit_output, List.append_cancel_left_eq, List.cons.injEq, and_true] at hsame
      exact hne hsame

/-- The sum of the check wraps around at 2^64. -/
theorem userCheckQuota_iff {t : Tables} {username : Bytes} {user : User} (huser : t.user username = some user)
    (hused : user.quotaUsed < 2 ^ 63) (hlimit : user.quotaLimit < 2 ^ 63) (n : UInt64) :
    userCheckQuota .none t username n = true ↔
      (user.quotaUsed + n.toNat) % 2 ^ 64 ≤ user.quotaLimit := by
  have hbytes : user.quotaUsed % 2 ^ 64 = user.quotaUsed := Nat.mod_eq_of_lt (by omega)
  have hbound : user.quotaLimit % 2 ^ 64 = user.quotaLimit := Nat.mod_eq_of_lt (by omega)
  simp only [userCheckQuota, reduceCtorEq, if_false, huser, decide_eq_true_eq]
  rw [UInt64.le_iff_toNat_le, UInt64.toNat_add, UInt64.toNat_ofNat', UInt64.toNat_ofNat', hbytes, hbound]

/-- The check is exact for all sums below 2^64, and for those whose rest modulo 2^64 is above
the limit. -/
theorem quota_exact_iff {env : Env} {client : Client} {chunk filename : Bytes} {l : Loop} {filesize : UInt64}
    {t : Tables} {user : User} (hparse : parseCommand (cstr chunk) = .upload filename filesize)
    (hread : ReadsQuota env client l.output t) (huser : t.user client.username = some user)
    (hused : user.quotaUsed < 2 ^ 63) (hlimit : user.quotaLimit < 2 ^ 63) :
    QuotaExact env client chunk l user filesize ↔
      user.quotaUsed + filesize.toNat < 2 ^ 64 ∨
        user.quotaLimit < user.quotaUsed + filesize.toNat - 2 ^ 64 := by
  have hsize := filesize.toNat_lt
  rw [QuotaExact, pastCheck_iff hparse, hread, userCheckQuota_iff huser hused hlimit]
  by_cases hwrap : user.quotaUsed + filesize.toNat < 2 ^ 64
  · rw [Nat.mod_eq_of_lt hwrap]
    exact iff_of_true Iff.rfl (.inl hwrap)
  · have hrest : (user.quotaUsed + filesize.toNat) % 2 ^ 64 = user.quotaUsed + filesize.toNat - 2 ^ 64 := by
      rw [Nat.mod_eq_sub_mod (by omega), Nat.mod_eq_of_lt (by omega)]
    rw [hrest]
    omega

def oneByteUsed : User := ⟨1, ascii "alice", [], 1, 104857600⟩

/-- The server asks the database in which `alice` has stored one byte. -/
def metered : Env :=
  { generous with checkQuota := fun _ n => userCheckQuota .none ⟨[oneByteUsed], []⟩ (ascii "alice") n }

theorem quota_exact_two_bytes :
    QuotaExact metered alice (ascii "UPLOAD a 2\n") ⟨[], []⟩ oneByteUsed 2 ↔
      oneByteUsed.quotaUsed + (2 : UInt64).toNat < 2 ^ 64 ∨
        oneByteUsed.quotaLimit < oneByteUsed.quotaUsed + (2 : UInt64).toNat - 2 ^ 64 :=
  quota_exact_iff (t := ⟨[oneByteUsed], []⟩)
    (show parseCommand (cstr (ascii "UPLOAD a 2\n")) = .upload (ascii "a") 2 by decide +kernel) (fun _ => rfl)
    (by decide) (by decide) (by decide)

/-- The size -1 is read as 2^64 - 1, and with the byte that is stored the sum is zero. -/
theorem negative_size_passes :
    parseCommand (cstr (ascii "UPLOAD a -1\n")) = .upload (ascii "a") 18446744073709551615 ∧
      oneByteUsed.quotaLimit < oneByteUsed.quotaUsed + (18446744073709551615 : UInt64).toNat ∧
      ¬ QuotaExact metered alice (ascii "UPLOAD a -1\n") ⟨[], []⟩ oneByteUsed 18446744073709551615 := by
  have hparse : parseCommand (cstr (ascii "UPLOAD a -1\n")) = .upload (ascii "a") 18446744073709551615 := by
    decide +kernel
  refine ⟨hparse, by decide, fun hexact => ?_⟩
  have hpast : PastCheck metered alice (ascii "UPLOAD a -1\n") ⟨[], []⟩ :=
    (pastCheck_iff hparse).mpr (by decide +kernel)
  exact absurd (hexact.mp hpast) (by decide)

end Stash.Threads
