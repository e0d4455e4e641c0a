import Stash.Auth.MetadataMap

/-! Any number of sessions that sign up under one new name at the same time. The look at the
name and the insert are two statements, and anything may come between them. -/
namespace Stash.Auth
open Foundation.CText Foundation.Runs

/-- Where a call of `user_signup` is: before `user_exists`, before `user_create`, or back. -/
inductive SignupPhase where
  | looking
  | creating
  | returned (code : Int)
  deriving DecidableEq, Repr

/-- One statement on the database; `other` is a call that does not create the account. -/
inductive SignupEvent (ι : Type*) where
  | userExists (i : ι) (prepared : Bool)
  | userCreate (i : ι) (fault : StmtFault)
  | login (fault : StmtFault) (username password : Bytes)
  | other (op : Operation)

structure Signups (ι : Type*) where
  db : Connection
  phase : ι → SignupPhase

namespace Signups
variable {ι : Type*} (hashPassword : Bytes → Bytes) (u : Bytes) (password : ι → Bytes)

/-- The sessions before any of them has done anything. -/
def start (db : Connection) : Signups ι := ⟨db, fun _ => .looking⟩

/-- Statement `i` has run on the database and its call goes on at `p`. -/
def advance [DecidableEq ι] (s : Signups ι) (db : Connection) (i : ι) (p : SignupPhase) : Signups ι :=
  ⟨db, Function.update s.phase i p⟩

@[simp] theorem advance_db [DecidableEq ι] (s : Signups ι) (db : Connection) (i : ι) (p : SignupPhase) :
    (s.advance db i p).db = db := rfl

theorem advance_phase [DecidableEq ι] (s : Signups ι) (db : Connection) (i j : ι) (p : SignupPhase) :
    (s.advance db i p).phase j = if j = i then p else s.phase j := Function.update_apply ..

def step [DecidableEq ι] (s : Signups ι) : SignupEvent ι → Option (Signups ι)
  | .userExists i prepared =>
    if s.phase i = .looking then
      some (s.advance s.db i (if userExists prepared s.db.tables u then .returned (-2) else .creating))
    else none
  | .userCreate i fault =>
    if s.phase i = .creating then
      let (db, code) := dbCreateUser fault s.db u (hashPassword (password i))
      some (s.advance db i (.returned code))
    else none
  -- A login only reads.
  | .login _ _ _ => some s
  | .other op => if op.creates = some u then none else some ⟨(op.perform s.db).1, s.phase⟩

/-- At most one call has returned 0, and what is stored is the hash of its password. -/
structure OneWinner (s : Signups ι) : Prop where
  unique : ∀ i j, s.phase i = .returned 0 → s.phase j = .returned 0 → i = j
  stored : ∀ i, s.phase i = .returned 0 →
    (s.db.tables.user u).map User.passwordHash = some (hashPassword (password i))

/-- As soon as a call has returned, one has returned 0; all others that have returned got -2. -/
def Decided (s : Signups ι) : Prop :=
  ∀ i code, s.phase i = .returned code →
    ∃ winner, s.phase winner = .returned 0 ∧ (i = winner ∨ code = -2)

/-- No statement of a signup fails, nor are the ids used up. -/
def NoError (s : Signups ι) : SignupEvent ι → Prop
  | .userExists _ prepared => prepared = true
  | .userCreate _ fault => fault = .none ∧ s.db.tables.nextUserId < 2 ^ 63
  | _ => True

instance (s : Signups ι) (e : SignupEvent ι) : Decidable (NoError s e) := by
  unfold NoError
  split <;> infer_instance

/-- While there is no account every call that has returned has failed; behind the account
stands the one call that has returned 0. -/
structure Contest (s : Signups ι) : Prop where
  idle : s.db.saved = none
  open_ : s.db.tables.user u = none → ∀ i code, s.phase i = .returned code → code = -1
  closed : (s.db.tables.user u).isSome → ∃ winner, s.phase winner = .returned 0 ∧
    (s.db.tables.user u).map User.passwordHash = some (hashPassword (password winner)) ∧
    ∀ i, s.phase i = .returned 0 → i = winner

variable {hashPassword u password} {s s' : Signups ι}

theorem Contest.oneWinner (h : Contest hashPassword u password s) : OneWinner hashPassword u password s := by
  have hwinner : ∀ i, s.phase i = .returned 0 → ∃ winner, i = winner ∧
      (s.db.tables.user u).map User.passwordHash = some (hashPassword (password winner)) ∧
      ∀ j, s.phase j = .returned 0 → j = winner := by
    intro i hi
    cases huser : s.db.tables.user u with
    | none => exact absurd (h.open_ huser i 0 hi) (by decide)
    | some user =>
      obtain ⟨winner, _, hstored, hunique⟩ := h.closed (by rw [huser]; rfl)
      rw [huser] at hstored
      exact ⟨winner, hunique i hi, hstored, hunique⟩
  constructor
  · intro i j hi hj
    obtain ⟨winner, rfl, _, hunique⟩ := hwinner i hi
    exact (hunique j hj).symm
  · intro i hi
    obtain ⟨winner, rfl, hstored, _⟩ := hwinner i hi
    exact hstored

/-- Only the call that creates the account changes the contest. -/
theorem Contest.loses [DecidableEq ι] (h : Contest hashPassword u password s) {i : ι} {p : SignupPhase}
    (hi : ∀ code, s.phase i ≠ .returned code)
    (hp : p = .creating ∨ p = .returned (-1) ∨ (p = .returned (-2) ∧ (s.db.tables.user u).isSome)) :
    Contest hashPassword u password (s.advance s.db i p) where
  idle := h.idle
  open_ := by
    intro hnone j code hj
    rw [advance_phase] at hj
    split at hj
    · rcases hp with rfl | rfl | ⟨_, hsome⟩
      · cases hj
      · exact (SignupPhase.returned.inj hj).symm
      · rw [advance_db] at hnone
        rw [hnone] at hsome
        cases hsome
    · exact h.open_ hnone j code hj
  closed := by
    intro hsome
    obtain ⟨winner, hwinner, hstored, hunique⟩ := h.closed hsome
    refine ⟨winner, ?_, hstored, fun j hj => ?_⟩
    · rw [advance_phase, if_neg]
      · exact hwinner
      · rintro rfl
        exact hi 0 hwinner
    · rw [advance_phase] at hj
      split at hj
      · rcases hp with rfl | rfl | ⟨rfl, _⟩
        · cases hj
        · cases hj
        · cases hj
      · exact hunique j hj

/-- The call that creates the account is the winner. -/
theorem Contest.wins [DecidableEq ι] (h : Contest hashPassword u password s) (hnone : s.db.tables.user u = none)
    (i : ι) : Contest hashPassword u password
      (s.advance (s.db.exec fun t => t.insertUser u (hashPassword (password i))) i (.returned 0)) where
  idle := h.idle
  open_ := by
    intro hstill
    simp [Connection.exec, Tables.user_insertUser hnone] at hstill
  closed := by
    intro _
    refine ⟨i, by rw [advance_phase, if_pos rfl], ?_, fun j hj => ?_⟩
    · simp [Connection.exec, Tables.user_insertUser hnone]
    · by_contra hij
      rw [advance_phase, if_neg hij] at hj
      exact absurd (h.open_ hnone j 0 hj) (by decide)

theorem Contest.other (h : Contest hashPassword u password s) {op : Operation} (hop : op.creates ≠ some u) :
    Contest hashPassword u password ⟨(op.perform s.db).1, s.phase⟩ := by
  have hhash := op.perform_hash h.idle (.inl hop)
  have hnone : (op.perform s.db).1.tables.user u = none ↔ s.db.tables.user u = none := by
    rw [← Option.map_eq_none_iff (f := User.passwordHash), hhash, Option.map_eq_none_iff]
  refine ⟨op.perform_idle h.idle, fun hstill => h.open_ (hnone.mp hstill), fun hsome => ?_⟩
  rw [hhash]
  refine h.closed ?_
  rw [Option.isSome_iff_ne_none] at hsome ⊢
  exact mt hnone.mpr hsome

theorem contest_step [DecidableEq ι] (h : Contest hashPassword u password s) {e : SignupEvent ι}
    (hstep : step hashPassword u password s e = some s') : Contest hashPassword u password s' := by
  cases e with
  | userExists i prepared =>
    obtain ⟨hphase, hnext⟩ := Option.ite_none_right_eq_some.mp hstep
    obtain rfl := Option.some.inj hnext
    refine h.loses (fun code => by rw [hphase]; simp) ?_
    cases hexists : userExists prepared s.db.tables u with
    | false => exact .inl rfl
    | true =>
      rw [userExists, Bool.and_eq_true, Tables.userId_eq, Option.isSome_map] at hexists
      exact .inr (.inr ⟨rfl, hexists.2⟩)
  | userCreate i fault =>
    simp only [step] at hstep
    obtain ⟨hphase, hnext⟩ := Option.ite_none_right_eq_some.mp hstep
    have hidle : ∀ code, s.phase i ≠ .returned code := fun code => by rw [hphase]; simp
    rcases dbCreateUser_cases fault s.db u (hashPassword (password i)) with
      ⟨_, _, hnone, hdone⟩ | ⟨_, _, hsome, hdone⟩ | ⟨_, hdone⟩
    · rw [hdone] at hnext
      obtain rfl := Option.some.inj hnext
      exact h.wins hnone i
    · rw [hdone] at hnext
      obtain rfl := Option.some.inj hnext
      exact h.loses hidle (.inr (.inr ⟨rfl, hsome⟩))
    · rw [hdone] at hnext
      obtain rfl := Option.some.inj hnext
      exact h.loses hidle (.inr (.inl rfl))
  | login fault username password =>
    obtain rfl := Option.some.inj hstep
    exact h
  | other op =>
    obtain ⟨hop, hnext⟩ := Option.ite_none_left_eq_some.mp hstep
    obtain rfl := Option.some.inj hnext
    exact h.other hop

/-- What a statement returns, if it returns anything; only an error of the database gives -1. -/
theorem step_codes [DecidableEq ι] {e : SignupEvent ι} (hstep : step hashPassword u password s e = some s')
    {i : ι} {code : Int} (hi : s'.phase i = .returned code) :
    s.phase i = .returned code ∨ code = 0 ∨ code = -2 ∨ ¬ NoError s e := by
  cases e with
  | userExists j prepared =>
    obtain ⟨_, hnext⟩ := Option.ite_none_right_eq_some.mp hstep
    obtain rfl := Option.some.inj hnext
    rw [advance_phase] at hi
    split at hi
    · split at hi
      · exact .inr (.inr (.inl (SignupPhase.returned.inj hi).symm))
      · cases hi
    · exact .inl hi
  | userCreate j fault =>
    simp only [step] at hstep
    obtain ⟨_, hnext⟩ := Option.ite_none_right_eq_some.mp hstep
    rcases dbCreateUser_cases fault s.db u (hashPassword (password j)) with
      ⟨_, _, _, hdone⟩ | ⟨_, _, _, hdone⟩ | ⟨hfail, _⟩
    · rw [hdone] at hnext
      obtain rfl := Option.some.inj hnext
      rw [advance_phase] at hi
      split at hi
      · exact .inr (.inl (SignupPhase.returned.inj hi).symm)
      · exact .inl hi
    · rw [hdone] at hnext
      obtain rfl := Option.some.inj hnext
      rw [advance_phase] at hi
      split at hi
      · exact .inr (.inr (.inl (SignupPhase.returned.inj hi).symm))
      · exact .inl hi
    · refine .inr (.inr (.inr fun hok => ?_))
      exact hfail.elim (fun hfault => hfault hok.1) (Int.not_le.mpr hok.2)
  | login fault username password =>
    obtain rfl := Option.some.inj hstep
    exact .inl hi
  | other op =>
    obtain ⟨_, hnext⟩ := Option.ite_none_left_eq_some.mp hstep
    obtain rfl := Option.some.inj hnext
    exact .inl hi

/-- Where every call has returned 0 or -2, the first of them to return has returned 0. -/
theorem Contest.decided (h : Contest hashPassword u password s)
    (hcodes : ∀ i code, s.phase i = .returned code → code = 0 ∨ code = -2) : Decided s := by
  intro i code hi
  cases huser : s.db.tables.user u with
  | none =>
    have hfailed := h.open_ huser i code hi
    rcases hcodes i code hi with rfl | rfl
    · cases hfailed
    · cases hfailed
  | some user =>
    obtain ⟨winner, hwinner, _, hunique⟩ := h.closed (by rw [huser]; rfl)
    refine ⟨winner, hwinner, ?_⟩
    rcases hcodes i code hi with rfl | rfl
    · exact .inl (hunique i hi)
    · exact .inr rfl

theorem contest_start {db : Connection} (hidle : db.saved = none) (hnew : db.tables.user u = none) :
    Contest hashPassword u password (start db) where
  idle := hidle
  open_ := by
    intro _ i code hi
    cases hi
  closed := by
    intro hsome
    rw [start, hnew] at hsome
    cases hsome

/-- Left alone, the two statements of a call are `user_signup`. -/
theorem signup_alone [DecidableEq ι] (s : Signups ι) {i : ι} (hi : s.phase i = .looking) (prepared : Bool)
    (fault : StmtFault) : ∃ events, run (step hashPassword u password) s events =
      some (s.advance (userSignup hashPassword prepared fault s.db.tables s.db u (password i)).1 i
        (.returned (userSignup hashPassword prepared fault s.db.tables s.db u (password i)).2)) := by
  cases hexists : userExists prepared s.db.tables u with
  | true =>
    refine ⟨[.userExists i prepared], ?_⟩
    simp [run, step, hi, hexists, userSignup]
  | false =>
    refine ⟨[.userExists i prepared, .userCreate i fault], ?_⟩
    simp [run, step, hi, hexists, userSignup, advance]

/-- However the statements of concurrent signups come between each other and other calls: at
most one returns 0 and its hash stays the one that is stored; if no statement of theirs fails,
one of them returns 0 as soon as any returns, and all others return -2. -/
theorem one_signup_wins [DecidableEq ι] {db : Connection} (hidle : db.saved = none)
    (hnew : db.tables.user u = none) (events : List (SignupEvent ι)) :
    Always (step hashPassword u password) (OneWinner hashPassword u password) (start db) events ∧
      (Along (step hashPassword u password) NoError (start db) events →
        Always (step hashPassword u password) Decided (start db) events) := by
  have hstart : Contest hashPassword u password (start db) := contest_start hidle hnew
  constructor
  · exact (always_of_step (fun _ _ _ h hstep => contest_step h hstep) events hstart).mono
      fun _ h => h.oneWinner
  · intro hok
    have hkeep : ∀ (s : Signups ι) e s', (Contest hashPassword u password s ∧
        ∀ i code, s.phase i = .returned code → code = 0 ∨ code = -2) → NoError s e →
        step hashPassword u password s e = some s' → Contest hashPassword u password s' ∧
          ∀ i code, s'.phase i = .returned code → code = 0 ∨ code = -2 := by
      rintro s e s' ⟨h, hcodes⟩ hnoerror hstep
      refine ⟨contest_step h hstep, fun i code hi => ?_⟩
      rcases step_codes hstep hi with hold | hzero | htwo | herror
      · exact hcodes i code hold
      · exact .inl hzero
      · exact .inr htwo
      · exact absurd hnoerror herror
    exact (Along.always hkeep ⟨hstart, fun i code hi => by cases hi⟩ hok).mono fun _ h => h.1.decided h.2

/-- Both find the name free; the second insert meets the UNIQUE constraint. -/
theorem one_signup_wins_two :
    Always (step (ι := Nat) id (ascii "alice") fun i => [i.toUInt8]) Decided (start ⟨⟨[], []⟩, none⟩)
      [.userExists 1 true, .userExists 2 true, .login .none (ascii "alice") [1], .userCreate 2 .none,
        .userCreate 1 .none] :=
  (one_signup_wins rfl rfl _).2 (by decide)

end Signups

end Stash.Auth
