import Stash.Auth.Accounts
import Stash.Threads.Naming

/-! The commands of the authentication loop, as the server reads them from a `recv`. -/
namespace Stash.Threads
open Foundation.CText Foundation.Scanf Auth

inductive AuthCommand where
  | signup (username password : Bytes)
  | login (username password : Bytes)
  | invalid
  deriving DecidableEq, Repr

/-- The command buffer up to its newline. -/
def commandLine (chunk : Bytes) : Bytes := (cstr chunk).takeWhile fun c => c != 10

/-- The two conversions, tried one after the other. -/
def parseAuthCommand (cmd : Bytes) : AuthCommand :=
  match sscanf signupFormat cmd with
  | [.text username, .text password] => .signup username password
  | _ =>
    match sscanf loginFormat cmd with
    | [.text username, .text password] => .login username password
    | _ => .invalid

theorem commandLine_no_nul (chunk : Bytes) : (0 : UInt8) ∉ commandLine chunk := fun h =>
  no_nul_cstr chunk ((List.takeWhile_sublist _).subset h)

/-- What the format of both commands reads: two words behind the keyword. -/
theorem sscanf_credentials {keyword cmd username password : Bytes} :
    sscanf (literals keyword ++ [.space, .string 63, .space, .string 255]) cmd = [.text username, .text password] ↔
      ∃ fields rest rest', cmd = keyword ++ fields ∧ scanString 63 fields = some (username, rest) ∧
        scanString 255 rest = some (password, rest') := by
  by_cases hkeyword : keyword <+: cmd
  · obtain ⟨fields, rfl⟩ := hkeyword
    rw [sscanf_literals_append]
    simp only [sscanf, scanString_skipSpace]
    constructor
    · intro h
      split at h
      · rename_i word rest hword
        split at h
        · rename_i word' rest' hword'
          simp only [List.cons.injEq, Value.text.injEq, and_true] at h
          exact ⟨fields, rest, rest', rfl, h.1 ▸ hword, h.2 ▸ hword'⟩
        · simp at h
      · cases h
    · rintro ⟨fields', rest, rest', heq, hword, hword'⟩
      obtain rfl := List.append_cancel_left heq
      rw [hword]
      simp only [hword']
  · rw [sscanf_literals_mismatch _ hkeyword]
    constructor
    · intro h
      cases h
    · rintro ⟨fields, _, _, rfl, _, _⟩
      exact absurd (List.prefix_append _ _) hkeyword

/-- A command that is recognised holds its two words behind one of the keywords. -/
theorem parseAuthCommand_fields {cmd username password : Bytes}
    (h : parseAuthCommand cmd = .signup username password ∨ parseAuthCommand cmd = .login username password) :
    ∃ keyword fields rest rest', cmd = keyword ++ fields ∧ scanString 63 fields = some (username, rest) ∧
      scanString 255 rest = some (password, rest') := by
  unfold parseAuthCommand at h
  split at h
  · rename_i hscan
    rcases h with h | h
    · obtain ⟨rfl, rfl⟩ := AuthCommand.signup.inj h
      exact ⟨_, sscanf_credentials.mp hscan⟩
    · cases h
  · split at h
    · rename_i hscan
      rcases h with h | h
      · cases h
      · obtain ⟨rfl, rfl⟩ := AuthCommand.login.inj h
        exact ⟨_, sscanf_credentials.mp hscan⟩
    · rcases h with h | h <;> cases h

/-- The username of a command is one that an account can have, and the password a word. -/
theorem parseAuthCommand_words {cmd username password : Bytes} (hcmd : (0 : UInt8) ∉ cmd)
    (h : parseAuthCommand cmd = .signup username password ∨ parseAuthCommand cmd = .login username password) :
    (∃ u : Username, u.text = username) ∧ ∃ p : Word 255, p.text = password := by
  obtain ⟨keyword, fields, rest, rest', rfl, hword, hword'⟩ := parseAuthCommand_fields h
  have hfields : (0 : UInt8) ∉ fields := fun h0 => hcmd (List.mem_append_right _ h0)
  refine ⟨scanString_isWord hfields hword, scanString_isWord (fun h0 => hfields ?_) hword'⟩
  obtain ⟨before, hsplit, _⟩ := scanString_spec hword
  rw [hsplit]
  exact List.mem_append_right _ (List.mem_append_right _ h0)

/-- A text that begins with a keyword is read by the format of that keyword. -/
theorem parseAuthCommand_signup (fields : Bytes) :
    (∃ username password, parseAuthCommand (ascii "SIGNUP" ++ fields) = .signup username password ∧
      sscanf signupFormat (ascii "SIGNUP" ++ fields) = [.text username, .text password]) ∨
    (parseAuthCommand (ascii "SIGNUP" ++ fields) = .invalid ∧
      ∀ username password, sscanf signupFormat (ascii "SIGNUP" ++ fields) ≠ [.text username, .text password]) := by
  have hlogin : sscanf loginFormat (ascii "SIGNUP" ++ fields) = [] :=
    sscanf_literals_mismatch _ (not_prefix_append (by decide) fields)
  unfold parseAuthCommand
  split
  · rename_i username password hscan
    exact .inl ⟨username, password, rfl, hscan⟩
  · rename_i hscan
    exact .inr ⟨by rw [hlogin], hscan⟩

theorem parseAuthCommand_login (fields : Bytes) :
    (∃ username password, parseAuthCommand (ascii "LOGIN" ++ fields) = .login username password ∧
      sscanf loginFormat (ascii "LOGIN" ++ fields) = [.text username, .text password]) ∨
    (parseAuthCommand (ascii "LOGIN" ++ fields) = .invalid ∧
      ∀ username password, sscanf loginFormat (ascii "LOGIN" ++ fields) ≠ [.text username, .text password]) := by
  have hsignup : sscanf signupFormat (ascii "LOGIN" ++ fields) = [] :=
    sscanf_literals_mismatch _ (not_prefix_append (by decide) fields)
  unfold parseAuthCommand
  rw [hsignup]
  simp only
  split
  · rename_i username password hscan
    exact .inl ⟨username, password, rfl, hscan⟩
  · rename_i hscan
    exact .inr ⟨rfl, hscan⟩

end Stash.Threads
