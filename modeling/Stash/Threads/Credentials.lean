import Stash.Auth.MetadataMap
import Stash.Client.Authenticate
import Stash.Threads.AuthCommands

/-! What becomes of the credentials that a user types: the account that a sign-up creates and
the logins that are let in. -/
namespace Stash.Threads
open Foundation.CText Foundation.Scanf Auth Stash.Client

/-- The answers of the authentication loop. -/
inductive AuthReply where
  | signupOk
  | userAlreadyExists
  | signupFailed
  | loginOk
  | userNotFound
  | invalidPassword
  | loginFailed
  | pleaseAuthenticate
  deriving DecidableEq, Repr

def AuthReply.text : AuthReply → Bytes
  | .signupOk => ascii "SIGNUP OK\n"
  | .userAlreadyExists => ascii "SIGNUP ERROR: User already exists\n"
  | .signupFailed => ascii "SIGNUP ERROR: Database operation failed\n"
  | .loginOk => ascii "LOGIN OK\n"
  | .userNotFound => ascii "LOGIN ERROR: User not found\n"
  | .invalidPassword => ascii "LOGIN ERROR: Invalid password\n"
  | .loginFailed => ascii "LOGIN ERROR: Database operation failed\n"
  | .pleaseAuthenticate => ascii "ERROR: Please SIGNUP or LOGIN first\n"

/-- The database calls of one command, with the tables in which the name was looked up. -/
structure AuthCalls where
  prepared : Bool
  lookedUp : Tables
  create : StmtFault
  verify : StmtFault

/-- One pass of the authentication loop: the command, its database calls and the answer. -/
def answerAuth (hashPassword : Bytes → Bytes) (calls : AuthCalls) (db : Connection) (chunk : Bytes) :
    Connection × AuthReply :=
  match parseAuthCommand (commandLine chunk) with
  | .signup username password =>
    let (db, result) := userSignup hashPassword calls.prepared calls.create calls.lookedUp db username password
    (db, if result = 0 then .signupOk else if result = -2 then .userAlreadyExists else .signupFailed)
  | .login username password =>
    let result := userLogin hashPassword calls.verify db.tables username password
    (db, if result = 0 then .loginOk else if result = -2 then .userNotFound
      else if result = -3 then .invalidPassword else .loginFailed)
  | .invalid => (db, .pleaseAuthenticate)

/-- The databases that the server comes to, from an empty one. -/
inductive Reachable (hashPassword : Bytes → Bytes) : Connection → Prop where
  | fresh : Reachable hashPassword ⟨⟨[], []⟩, none⟩
  | answered {db : Connection} (calls : AuthCalls) (chunk : Bytes) :
      Reachable hashPassword db → Reachable hashPassword (answerAuth hashPassword calls db chunk).1
  | recorded {db : Connection} (fault : DbFault) (username filename : Bytes) (size : Fin (2 ^ 63)) :
      Reachable hashPassword db → Reachable hashPassword (dbAddOrUpdateFile fault db username filename size).1
  | removed {db : Connection} (fault : DbFault) (username filename : Bytes) :
      Reachable hashPassword db → Reachable hashPassword (dbRemoveFile fault db username filename).1

/-- A sign-up that is answered OK has created the account that was typed. -/
def SignupAsTyped (hashPassword : Bytes → Bytes) (username password : Typed) : Prop :=
  ∀ db, Reachable hashPassword db → ∀ calls,
    (answerAuth hashPassword calls db (authLine .signup username.text password.text)).2 = .signupOk →
    (answerAuth hashPassword calls db (authLine .signup username.text password.text)).1 =
      db.exec fun t => t.insertUser username.text (hashPassword password.text)

/-- A login is answered OK when there is such an account and the database can be asked for it,
and only then. -/
def LoginAsTyped (hashPassword : Bytes → Bytes) (username password : Typed) : Prop :=
  ∀ db, Reachable hashPassword db → ∀ calls,
    ((answerAuth hashPassword calls db (authLine .login username.text password.text)).2 = .loginOk ↔
      calls.verify = .none ∧
        (db.tables.user username.text).map User.passwordHash = some (hashPassword password.text))

/-- Both are words that the conversions read whole. -/
def TakenWhole (username password : Typed) : Prop :=
  (∃ u : Word 63, u.text = username.text) ∧ ∃ p : Word 255, p.text = password.text

/-- There is at most one word, and a short one. -/
def Refused (username password : Typed) : Prop :=
  ∃ before word after, username.text ++ ascii " " ++ password.text = before ++ (word ++ after) ∧
    Blank before ∧ Blank after ∧ word.length ≤ 63 ∧ ∀ c ∈ word, isspace c = false

/-- The text behind the keyword. -/
def typedFields (username password : Typed) : Bytes := ascii " " ++ (username.text ++ (ascii " " ++ password.text))

variable {username password : Typed}

/-- A line that fits is cut at its own newline. -/
theorem commandLine_authLine (choice : AuthChoice)
    (hfits : (credentials choice username.text password.text).length < 512) :
    commandLine (authLine choice username.text password.text) = choice.keyword ++ typedFields username password := by
  have htext : credentials choice username.text password.text =
      (choice.keyword ++ typedFields username password) ++ [10] := by
    simp [credentials, typedFields, ascii]
  have hmem : ∀ c, c ∉ username.text → c ∉ password.text → c ∉ choice.keyword → c ≠ 32 →
      c ∉ choice.keyword ++ typedFields username password := by
    intro c hu hp hk hspace
    have hgap : ascii " " = [32] := rfl
    simp [typedFields, hgap, hu, hp, hk, hspace]
  have hnul := hmem 0 username.no_nul password.no_nul (by cases choice <;> decide) (by decide)
  have hline := hmem 10 username.no_newline password.no_newline (by cases choice <;> decide) (by decide)
  rw [authLine, snprintf_of_lt hfits, htext, commandLine, cstr_append hnul]
  rw [List.takeWhile_append_of_pos fun c hc => by simpa using fun heq : c = 10 => hline (heq ▸ hc)]
  simp [cstr]

/-- The words that the server makes of the line. -/
def Fields (username password : Typed) (first second : Bytes) : Prop :=
  ∃ rest rest', scanString 63 (typedFields username password) = some (first, rest) ∧
    scanString 255 rest = some (second, rest')

theorem Fields.unique {first second first' second' : Bytes} (h : Fields username password first second)
    (h' : Fields username password first' second') : first = first' ∧ second = second' := by
  obtain ⟨rest, _, hword, hword'⟩ := h
  obtain ⟨_, _, hother, hother'⟩ := h'
  obtain ⟨rfl, rfl⟩ := Prod.mk.inj (Option.some.inj (hword.symm.trans hother))
  exact ⟨rfl, (Prod.mk.inj (Option.some.inj (hword'.symm.trans hother'))).1⟩

theorem sscanf_fields (choice : AuthChoice) {first second : Bytes} :
    sscanf (literals choice.keyword ++ [.space, .string 63, .space, .string 255])
      (choice.keyword ++ typedFields username password) = [.text first, .text second] ↔
      Fields username password first second := by
  rw [sscanf_credentials]
  constructor
  · rintro ⟨fields, rest, rest', heq, hword, hword'⟩
    obtain rfl := List.append_cancel_left heq
    exact ⟨rest, rest', hword, hword'⟩
  · rintro ⟨rest, rest', hword, hword'⟩
    exact ⟨_, rest, rest', rfl, hword, hword'⟩

/-- The command that a choice stands for. -/
def command : AuthChoice → Bytes → Bytes → AuthCommand
  | .signup => .signup
  | .login => .login

/-- The line is read as its two words, or not at all. -/
theorem parse_authLine (username password : Typed) (choice : AuthChoice)
    (hfits : (credentials choice username.text password.text).length < 512) :
    (∃ first second, Fields username password first second ∧
      parseAuthCommand (commandLine (authLine choice username.text password.text)) = command choice first second) ∨
    ((∀ first second, ¬ Fields username password first second) ∧
      parseAuthCommand (commandLine (authLine choice username.text password.text)) = .invalid) := by
  rw [commandLine_authLine choice hfits]
  cases choice with
  | signup =>
    rcases parseAuthCommand_signup (typedFields username password) with ⟨first, second, hparse, hscan⟩ | ⟨hparse, hnone⟩
    · exact .inl ⟨first, second, (sscanf_fields .signup).mp hscan, hparse⟩
    · exact .inr ⟨fun first second h => hnone first second ((sscanf_fields .signup).mpr h), hparse⟩
  | login =>
    rcases parseAuthCommand_login (typedFields username password) with ⟨first, second, hparse, hscan⟩ | ⟨hparse, hnone⟩
    · exact .inl ⟨first, second, (sscanf_fields .login).mp hscan, hparse⟩
    · exact .inr ⟨fun first second h => hnone first second ((sscanf_fields .login).mpr h), hparse⟩

theorem Fields.words {first second : Bytes} (h : Fields username password first second) :
    (∃ u : Word 63, u.text = first) ∧ ∃ p : Word 255, p.text = second := by
  obtain ⟨rest, rest', hword, hword'⟩ := h
  have hnul : (0 : UInt8) ∉ typedFields username password := by
    have hgap : ascii " " = [32] := rfl
    simp [typedFields, hgap, username.no_nul, password.no_nul]
  refine ⟨scanString_isWord hnul hword, scanString_isWord (fun h0 => hnul ?_) hword'⟩
  obtain ⟨before, hsplit, _⟩ := scanString_spec hword
  rw [hsplit]
  exact List.mem_append_right _ (List.mem_append_right _ h0)

/-- Exactly what can be taken whole is taken as it was typed. -/
theorem fields_whole : Fields username password username.text password.text ↔ TakenWhole username password := by
  constructor
  · exact fun h => h.words
  · rintro ⟨⟨u, hu⟩, ⟨p, hp⟩⟩
    have hgap : ∀ rest, skipSpace (ascii " " ++ rest) = skipSpace rest := fun _ => rfl
    refine ⟨ascii " " ++ password.text, [], ?_, ?_⟩
    · rw [typedFields, ← scanString_skipSpace, hgap, scanString_skipSpace, ← hu]
      exact scanString_word u fun c hc => by
        obtain rfl := Option.some.inj hc
        rfl
    · rw [← scanString_skipSpace, hgap, scanString_skipSpace, ← hp, ← List.append_nil p.text]
      rw [scanString_word p (fun c hc => by cases hc), List.append_nil]

theorem blank_append {before after : Bytes} (hb : Blank before) (ha : Blank after) : Blank (before ++ after) :=
  fun c hc => (List.mem_append.mp hc).elim (hb c) (ha c)

/-- What is refused has no two words. -/
theorem fields_refused : (∀ first second, ¬ Fields username password first second) ↔ Refused username password := by
  constructor
  · intro h
    have hhead : typedFields username password = 32 :: (username.text ++ ascii " " ++ password.text) := by
      rw [List.append_assoc]
      rfl
    cases hword : scanString 63 (typedFields username password) with
    | none =>
      have hblank := (scanString_eq_none (by decide)).mp hword
      rw [hhead] at hblank
      exact ⟨_, [], [], by simp, fun c hc => hblank c (List.mem_cons_of_mem _ hc), nofun, Nat.zero_le _, nofun⟩
    | some found =>
      obtain ⟨word, rest⟩ := found
      cases hword' : scanString 255 rest with
      | some found =>
        exact absurd ⟨rest, found.2, hword, hword'⟩ (h word found.1)
      | none =>
        have hblank := (scanString_eq_none (by decide)).mp hword'
        obtain ⟨before, hsplit, hbefore, hne, hspace, hlength, _⟩ := scanString_spec hword
        rw [hhead] at hsplit
        cases before with
        | nil =>
          -- The gap behind the keyword would be in the word.
          obtain ⟨c, tail, rfl⟩ := List.exists_cons_of_ne_nil hne
          obtain ⟨rfl, _⟩ := List.cons.inj hsplit
          exact absurd (hspace 32 (List.mem_cons_self ..)) (by decide)
        | cons c before =>
          refine ⟨before, word, rest, (List.cons.inj hsplit).2, fun d hd => hbefore d (List.mem_cons_of_mem c hd),
            hblank, hlength, hspace⟩
  · rintro ⟨before, word, after, hsplit, hbefore, hafter, hlength, hspace⟩ first second ⟨rest, rest', hword, hword'⟩
    have hfields : typedFields username password = (ascii " " ++ before) ++ (word ++ after) := by
      rw [typedFields, List.append_assoc, ← hsplit, List.append_assoc]
    have hspaces : Blank (ascii " ") := fun c hc => by
      obtain rfl := List.mem_singleton.mp hc
      rfl
    have hgap : Blank (ascii " " ++ before) := blank_append hspaces hbefore
    rw [hfields, ← scanString_skipSpace, skipSpace_append hgap, scanString_skipSpace] at hword
    have hrest : Blank rest := by
      by_cases hne : word = []
      · subst hne
        rw [List.nil_append, (scanString_eq_none (by decide)).mpr hafter] at hword
        cases hword
      · have hnul : (0 : UInt8) ∉ word := by
          intro h0
          have hmem : (0 : UInt8) ∈ username.text ++ ascii " " ++ password.text := by
            rw [hsplit]
            exact List.mem_append_right _ (List.mem_append_left _ h0)
          have hspaces : ascii " " = [32] := rfl
          simp [hspaces, username.no_nul, password.no_nul] at hmem
        have hread := scanString_word ⟨word, hne, hlength, hspace, hnul⟩
          (fun c hc => hafter c (List.mem_of_mem_head? hc))
        rw [hread] at hword
        rw [← (Prod.mk.inj (Option.some.inj hword)).2]
        exact hafter
    rw [(scanString_eq_none (by decide)).mpr hrest] at hword'
    cases hword'

section
variable {hashPassword : Bytes → Bytes} {db : Connection} {calls : AuthCalls}

/-- The accounts of the server are words, and so were their passwords. -/
structure Registered (hashPassword : Bytes → Bytes) (db : Connection) : Prop where
  idle : db.saved = none
  words : ∀ user ∈ db.tables.users,
    (∃ u : Word 63, u.text = user.username) ∧ ∃ p : Word 255, hashPassword p.text = user.passwordHash

theorem Registered.charged (h : Registered hashPassword db) (t : Tables) (ht : t.users = db.tables.users) (id : Int) :
    Registered hashPassword ⟨t.updateQuota id, none⟩ where
  idle := rfl
  words := by
    intro user hmem
    obtain ⟨old, hold, rfl⟩ := List.mem_map.mp hmem
    have hwords := h.words old (ht ▸ hold)
    split
    · exact hwords
    · exact hwords

theorem answerAuth_signup {chunk username password : Bytes}
    (hparse : parseAuthCommand (commandLine chunk) = .signup username password) :
    (answerAuth hashPassword calls db chunk).2 = .signupOk →
      db.tables.user username = none ∧
      (answerAuth hashPassword calls db chunk).1 = db.exec fun t => t.insertUser username (hashPassword password) := by
  simp only [answerAuth, hparse, userSignup]
  split
  · intro h
    cases h
  · rcases dbCreateUser_cases calls.create db username (hashPassword password) with ⟨_, _, hname, hdone⟩ |
      ⟨_, _, _, hdone⟩ | ⟨_, hdone⟩
    · rw [hdone]
      exact fun _ => ⟨hname, rfl⟩
    · rw [hdone]
      intro h
      cases h
    · rw [hdone]
      intro h
      cases h

/-- Any other answer leaves the database as it is. -/
theorem answerAuth_db (hashPassword : Bytes → Bytes) (calls : AuthCalls) (db : Connection) (chunk : Bytes) :
    (answerAuth hashPassword calls db chunk).1 = db ∨ ∃ username password,
      parseAuthCommand (commandLine chunk) = .signup username password ∧
      (answerAuth hashPassword calls db chunk).2 = .signupOk := by
  cases hparse : parseAuthCommand (commandLine chunk) with
  | signup username password =>
    simp only [answerAuth, hparse, userSignup]
    split
    · exact .inl rfl
    · rcases dbCreateUser_cases calls.create db username (hashPassword password) with ⟨_, _, _, hdone⟩ |
        ⟨_, _, _, hdone⟩ | ⟨_, hdone⟩
      · rw [hdone]
        exact .inr ⟨username, password, rfl, rfl⟩
      · rw [hdone]
        exact .inl rfl
      · rw [hdone]
        exact .inl rfl
  | login username password => exact .inl (by simp only [answerAuth, hparse])
  | invalid => exact .inl (by simp only [answerAuth, hparse])

theorem Reachable.registered (h : Reachable hashPassword db) : Registered hashPassword db := by
  induction h with
  | fresh => exact ⟨rfl, nofun⟩
  | @answered db calls chunk _ ih =>
    rcases answerAuth_db hashPassword calls db chunk with hsame | ⟨username, password, hparse, hok⟩
    · rw [hsame]
      exact ih
    · obtain ⟨_, hdone⟩ := answerAuth_signup hparse hok
      obtain ⟨hu, ⟨p, rfl⟩⟩ := parseAuthCommand_words (commandLine_no_nul chunk) (.inl hparse)
      rw [hdone]
      refine ⟨ih.idle, fun user hmem => ?_⟩
      rcases List.mem_append.mp hmem with hold | hnew
      · exact ih.words user hold
      · rw [List.mem_singleton.mp hnew]
        exact ⟨hu, p, rfl⟩
  | @recorded db fault username filename size _ ih =>
    rcases dbAddOrUpdateFile_spec fault ih.idle username filename size with ⟨id, _, _, hdone⟩ | ⟨_, hsame, _⟩
    · rw [hdone]
      exact ih.charged (db.tables.upsertFile (columnInt id) filename size) rfl (columnInt id)
    · rw [hsame]
      exact ih
  | @removed db fault username filename _ ih =>
    rcases dbRemoveFile_spec fault ih.idle username filename with ⟨id, _, _, _, hdone⟩ | ⟨_, hsame, _⟩
    · rw [hdone]
      exact ih.charged (db.tables.deleteFile (columnInt id) filename) rfl (columnInt id)
    · rw [hsame]
      exact ih

theorem userLogin_eq_zero {fault : StmtFault} {t : Tables} {username password : Bytes} :
    userLogin hashPassword fault t username password = 0 ↔
      fault = .none ∧ (t.user username).map User.passwordHash = some (hashPassword password) := by
  constructor
  · intro h
    refine ⟨?_, userLogin_stored h⟩
    cases fault with
    | none => rfl
    | prepare => cases h
    | step => cases h
  · rintro ⟨rfl, hstored⟩
    obtain ⟨user, huser, hhash⟩ := Option.map_eq_some_iff.mp hstored
    simp [userLogin, userVerifyPassword, huser, hhash]

theorem answerAuth_login {chunk username password : Bytes}
    (hparse : parseAuthCommand (commandLine chunk) = .login username password) :
    (answerAuth hashPassword calls db chunk).2 = .loginOk ↔
      calls.verify = .none ∧ (db.tables.user username).map User.passwordHash = some (hashPassword password) := by
  rw [← userLogin_eq_zero]
  simp only [answerAuth, hparse]
  split
  · rename_i hzero
    simp [hzero]
  · rename_i hnonzero
    simp only [hnonzero, iff_false]
    split
    · nofun
    · split <;> nofun

end

section
variable {hashPassword : Bytes → Bytes}

/-- Calls that all succeed, on an empty database. -/
def quietAuth : AuthCalls := ⟨true, ⟨[], []⟩, .none, .none⟩

/-- The account that such a sign-up makes. -/
theorem signup_fresh {chunk first second : Bytes}
    (hparse : parseAuthCommand (commandLine chunk) = .signup first second) :
    answerAuth hashPassword quietAuth ⟨⟨[], []⟩, none⟩ chunk =
      (⟨⟨[⟨1, first, hashPassword second, 0, 104857600⟩], []⟩, none⟩, .signupOk) := by
  simp [answerAuth, hparse, userSignup, quietAuth, userExists, Tables.userId, dbCreateUser,
    Tables.nextUserId, Tables.user, Connection.exec, Tables.insertUser]

def typedWord {width : Nat} (w : Word width) : Typed :=
  ⟨w.text, w.no_nul, fun h => absurd (w.no_space 10 h) (by decide)⟩

/-- Any two words can be signed up. -/
theorem reachable_account (u : Word 63) (p : Word 255) :
    Reachable hashPassword ⟨⟨[⟨1, u.text, hashPassword p.text, 0, 104857600⟩], []⟩, none⟩ := by
  have hwhole : Fields (typedWord u) (typedWord p) u.text p.text := fields_whole.mpr ⟨⟨u, rfl⟩, ⟨p, rfl⟩⟩
  have hfits : (credentials .signup u.text p.text).length < 512 := by
    have hu := u.length_le
    have hp := p.length_le
    have hlengths : (ascii "SIGNUP").length = 6 ∧ (ascii " ").length = 1 ∧ (ascii "\n").length = 1 := ⟨rfl, rfl, rfl⟩
    simp only [credentials, List.length_append, AuthChoice.keyword]
    omega
  rcases parse_authLine (typedWord u) (typedWord p) .signup hfits with
    ⟨first, second, hfields, hparse⟩ | ⟨hnone, _⟩
  · obtain ⟨hfirst, hsecond⟩ := hfields.unique hwhole
    have hreach := Reachable.answered quietAuth (authLine .signup (typedWord u).text (typedWord p).text)
      (.fresh : Reachable hashPassword _)
    rw [signup_fresh hparse, hfirst, hsecond] at hreach
    exact hreach
  · exact absurd hwhole (hnone _ _)

theorem signupAsTyped_iff (hinj : Function.Injective hashPassword)
    (hfits : (credentials .signup username.text password.text).length < 512) :
    SignupAsTyped hashPassword username password ↔ TakenWhole username password ∨ Refused username password := by
  rcases parse_authLine username password .signup hfits with ⟨first, second, hfields, hparse⟩ | ⟨hnone, hparse⟩
  · have hnotRefused : ¬ Refused username password := fun h => fields_refused.mpr h first second hfields
    rw [or_iff_left hnotRefused, ← fields_whole]
    constructor
    · intro h
      have hmade := h _ .fresh quietAuth (by rw [signup_fresh hparse])
      rw [signup_fresh hparse] at hmade
      simp only [Connection.exec, Tables.insertUser, Connection.mk.injEq, Tables.mk.injEq, List.nil_append,
        List.cons.injEq, User.mk.injEq] at hmade
      have hsecond := hinj hmade.1.1.1.2.2.1
      rw [← hmade.1.1.1.2.1, ← hsecond]
      exact hfields
    · intro hwhole db _ calls hok
      obtain ⟨rfl, rfl⟩ := hfields.unique hwhole
      exact (answerAuth_signup hparse hok).2
  · refine iff_of_true (fun db _ calls hok => ?_) (.inr (fields_refused.mp hnone))
    simp only [answerAuth, hparse] at hok
    cases hok

theorem loginAsTyped_iff (hinj : Function.Injective hashPassword)
    (hfits : (credentials .login username.text password.text).length < 512) :
    LoginAsTyped hashPassword username password ↔ TakenWhole username password ∨ Refused username password := by
  rcases parse_authLine username password .login hfits with ⟨first, second, hfields, hparse⟩ | ⟨hnone, hparse⟩
  · have hnotRefused : ¬ Refused username password := fun h => fields_refused.mpr h first second hfields
    rw [or_iff_left hnotRefused, ← fields_whole]
    constructor
    · intro h
      -- An account with the two words as they are read lets the line in.
      obtain ⟨⟨u, rfl⟩, ⟨p, rfl⟩⟩ := hfields.words
      have hlogin := ((h _ (reachable_account u p) quietAuth).mp
        ((answerAuth_login hparse).mpr ⟨rfl, by simp [Tables.user]⟩)).2
      by_cases hu : u.text = username.text
      · have hhash : hashPassword p.text = hashPassword password.text := by simpa [Tables.user, hu] using hlogin
        rw [← hu, ← hinj hhash]
        exact hfields
      · simp [Tables.user, hu] at hlogin
    · intro hwhole db _ calls
      obtain ⟨rfl, rfl⟩ := hfields.unique hwhole
      exact answerAuth_login hparse
  · refine iff_of_true (fun db hdb calls => ?_) (.inr (fields_refused.mp hnone))
    refine iff_of_false (fun hok => ?_) fun hlogin => ?_
    · simp only [answerAuth, hparse] at hok
      cases hok
    · -- An account's name and password are words, and would have been taken whole.
      obtain ⟨user, huser, hhash⟩ := Option.map_eq_some_iff.mp hlogin.2
      obtain ⟨hmem, hname⟩ := Tables.user_eq_some huser
      obtain ⟨⟨u, hu⟩, ⟨p, hp⟩⟩ := hdb.registered.words user hmem
      refine hnone _ _ (fields_whole.mpr ⟨⟨u, hu.trans hname⟩, ⟨p, hinj (hp.trans hhash)⟩⟩)

end

/-- Credentials are taken as they were typed exactly when each is one word that fits, or when
the line has no two words and is refused. -/
theorem credentials_as_typed_iff (hashPassword : Bytes → Bytes) (hinj : Function.Injective hashPassword)
    (username password name word : Typed)
    (hsignup : (credentials .signup username.text password.text).length < 512)
    (hlogin : (credentials .login name.text word.text).length < 512) :
    (SignupAsTyped hashPassword username password ↔ TakenWhole username password ∨ Refused username password) ∧
    (LoginAsTyped hashPassword name word ↔ TakenWhole name word ∨ Refused name word) :=
  ⟨signupAsTyped_iff hinj hsignup, loginAsTyped_iff hinj hlogin⟩

/-- An injective stand-in for the digest, which is that of SHA-256 for "password". -/
def exampleHash (password : Bytes) : Bytes :=
  if password = ascii "password" then ascii "5e884898da28047151d0e56f8dc6292773603d0d6aabbdd62a11ef721d1542d8"
  else 0 :: password

theorem exampleHash_injective : Function.Injective exampleHash := by
  have hhead : ∀ q, ascii "5e884898da28047151d0e56f8dc6292773603d0d6aabbdd62a11ef721d1542d8" ≠ 0 :: q := by
    intro q h
    have hfirst : (ascii "5e884898da28047151d0e56f8dc6292773603d0d6aabbdd62a11ef721d1542d8").head? = some 53 := rfl
    rw [h, List.head?_cons] at hfirst
    cases hfirst
  intro p q h
  unfold exampleHash at h
  split at h
  · rename_i hp
    split at h
    · rename_i hq
      rw [hp, hq]
    · exact absurd h (hhead q)
  · split at h
    · exact absurd h.symm (hhead p)
    · exact (List.cons.inj h).2

def typedAlice : Typed := ⟨ascii "alice", nameAlice.no_nul, by decide⟩
def typedPassword : Typed := ⟨ascii "password", by decide, by decide⟩
def typedJohnSmith : Typed := ⟨ascii "john smith", by decide, by decide⟩

theorem credentials_as_typed_alice :
    (SignupAsTyped exampleHash typedAlice typedPassword ↔
      TakenWhole typedAlice typedPassword ∨ Refused typedAlice typedPassword) ∧
    (LoginAsTyped exampleHash typedAlice typedPassword ↔
      TakenWhole typedAlice typedPassword ∨ Refused typedAlice typedPassword) :=
  credentials_as_typed_iff exampleHash exampleHash_injective typedAlice typedPassword typedAlice typedPassword
    (by decide +kernel) (by decide +kernel)

/-- The sign-up of "john smith" with the password "password" creates "john" with "smith". -/
theorem signup_of_two_words : ¬ SignupAsTyped exampleHash typedJohnSmith typedPassword := by
  intro h
  have hmade := h _ .fresh quietAuth (by decide +kernel)
  exact absurd hmade (by decide +kernel)

end Stash.Threads
