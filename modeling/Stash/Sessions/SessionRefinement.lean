import Mathlib.Algebra.Order.Group.Nat
import Mathlib.Data.Finset.Card
import Mathlib.Data.Finset.Range
import Stash.Sessions.SessionManager

/-! Refinement of the session table by a finite map from ids to sessions. The map follows
the returned ids and the calls; the table keeps to it as long as no destroy empties a slot
inside the probe path of another session. -/
namespace Stash.Sessions
open Foundation.CText Foundation.LinearProbing Foundation.Runs

/-- The manager beside the sessions that were created and not yet destroyed. -/
structure World where
  mgr : SessionManager
  live : UInt64 → Option Session

inductive Call where
  | create (fault : CreateFault) (socketFd : Int)
  | markInactive (sessionId : UInt64)
  | destroy (sessionId : UInt64)
  deriving DecidableEq, Repr

/-- One call, and what it means for the map: a nonzero id that `session_create` returns
enters the map, marking clears the active flag, destroying takes the id out. -/
def perform (w : World) : Call → World
  | .create fault socketFd =>
    let (mgr, sessionId) := sessionCreate fault w.mgr socketFd
    ⟨mgr, if sessionId = 0 then w.live
      else Function.update w.live sessionId (some (newSession sessionId socketFd))⟩
  | .markInactive sessionId =>
    ⟨sessionMarkInactive w.mgr sessionId,
      Function.update w.live sessionId ((w.live sessionId).map Session.markInactive)⟩
  | .destroy sessionId =>
    ⟨sessionDestroy w.mgr sessionId, Function.update w.live sessionId none⟩

def step (w : World) (c : Call) : Option World := some (perform w c)

def initial : World := ⟨⟨fun _ => none, 1, 0, 0, 0, []⟩, fun _ => none⟩

theorem sessionManagerInit_initial : sessionManagerInit true = some initial.mgr := rfl

/-- The table holds exactly the sessions of the map, each in one slot. -/
structure Represents (w : World) : Prop where
  entry : ∀ i < maxSessions, ∀ s, w.mgr.sessions i = some s → w.live s.sessionId = some s
  unique : ∀ i < maxSessions, ∀ j < maxSessions, ∀ s t, w.mgr.sessions i = some s →
    w.mgr.sessions j = some t → s.sessionId = t.sessionId → i = j
  slot : ∀ sessionId s, w.live sessionId = some s →
    s.sessionId = sessionId ∧ ∃ i < maxSessions, w.mgr.sessions i = some s

/-- What the calls owe the map in this state: `session_get` answers for the active
sessions, and marking and destroying reach every entry. -/
structure Refines (w : World) : Prop extends Represents w where
  get : ∀ sessionId, sessionGet w.mgr sessionId = (w.live sessionId).filter Session.isActive
  markInactive : ∀ sessionId s, w.live sessionId = some s →
    ∃ i < maxSessions, w.mgr.sessions i = some s ∧
      sessionMarkInactive w.mgr sessionId = w.mgr.setSlot i (some s.markInactive)
  destroy : ∀ sessionId s, w.live sessionId = some s →
    ∃ i < maxSessions, w.mgr.sessions i = some s ∧
      (sessionDestroy w.mgr sessionId).sessions = Function.update w.mgr.sessions i none ∧
      (sessionDestroy w.mgr sessionId).closed = w.mgr.closed ++ [s.socketFd] ∧
      (sessionDestroy w.mgr sessionId).activeSessionCount.toNat + 1 =
        w.mgr.activeSessionCount.toNat

/-- `session_create` stores a session: nothing fails and the table has room. -/
def Stores (mgr : SessionManager) (fault : CreateFault) (socketFd : Int) : Prop :=
  0 ≤ socketFd ∧ fault = .none ∧ ∃ i < maxSessions, mgr.occupied i = false

/-- Every slot before `i` on the probe path of the id is occupied. -/
def OnPath (mgr : SessionManager) (sessionId : UInt64) (i : Nat) : Prop :=
  Reached maxSessions mgr.occupied (hashSessionId sessionId) i

/-- A new session gets an id that is nonzero and not in the table. A destroyed session
does not lie before another one on the probe path of the latter. -/
def KeepsTable (w : World) : Call → Prop
  | .create fault socketFd => Stores w.mgr fault socketFd → w.mgr.nextSessionId ≠ 0 ∧
      ∀ i < maxSessions, ∀ s, w.mgr.sessions i = some s → s.sessionId ≠ w.mgr.nextSessionId
  | .markInactive _ => True
  | .destroy sessionId => ∀ i < maxSessions, ∀ s, w.mgr.sessions i = some s →
      s.sessionId = sessionId → ∀ j < maxSessions, j ≠ i → ∀ t, w.mgr.sessions j = some t →
        gap maxSessions (hashSessionId t.sessionId) j ≤ gap maxSessions (hashSessionId t.sessionId) i

def occupiedSlots (mgr : SessionManager) : Finset Nat :=
  (Finset.range maxSessions).filter fun i => mgr.occupied i = true

@[simp] theorem mem_occupiedSlots {mgr : SessionManager} {i : Nat} :
    i ∈ occupiedSlots mgr ↔ i < maxSessions ∧ mgr.occupied i = true := by
  simp only [occupiedSlots, Finset.mem_filter, Finset.mem_range]

/-- The representation invariant: every session can be reached, and the counter counts. -/
structure Table (w : World) : Prop extends Represents w where
  nonzero : ∀ i < maxSessions, ∀ s, w.mgr.sessions i = some s → s.sessionId ≠ 0
  opened : ∀ i < maxSessions, ∀ s, w.mgr.sessions i = some s → 0 ≤ s.socketFd
  chained : ∀ i < maxSessions, ∀ s, w.mgr.sessions i = some s → OnPath w.mgr s.sessionId i
  counted : w.mgr.activeSessionCount.toNat = (occupiedSlots w.mgr).card

theorem table_initial : Table initial := by
  refine { entry := ?_, unique := ?_, slot := ?_, nonzero := ?_, opened := ?_, chained := ?_, counted := ?_ }
    <;> intros <;> simp_all [initial, occupiedSlots, SessionManager.occupied]

variable {w : World}

theorem Table.find (h : Table w) {sessionId : UInt64} {s : Session} (hs : w.live sessionId = some s) :
    ∃ i < maxSessions, w.mgr.sessions i = some s ∧ sessionFind w.mgr sessionId = some (i, s) := by
  obtain ⟨hid, i, hi, hget⟩ := h.slot sessionId s hs
  refine ⟨i, hi, hget, sessionFind_eq_some hi hget hid ?_ ?_ ?_⟩
  · rw [← hid]
    exact h.nonzero i hi s hget
  · intro j hj t ht he
    exact h.unique j hj i hi t s ht hget (he.trans hid.symm)
  · rw [← hid]
    exact h.chained i hi s hget

/-- An id that is not in the map is not found in the table. -/
theorem Represents.find_none (h : Represents w) {sessionId : UInt64} (hs : w.live sessionId = none) :
    sessionFind w.mgr sessionId = none := by
  cases hf : sessionFind w.mgr sessionId with
  | none => rfl
  | some found =>
    obtain ⟨i, s⟩ := found
    obtain ⟨hi, hget, hid, _, _⟩ := sessionFind_some hf
    have hlive := h.entry _ hi _ hget
    rw [hid, hs] at hlive
    cases hlive

theorem card_occupiedSlots_pos {m : SessionManager} {i : Nat} (hi : i < maxSessions)
    (h : m.occupied i = true) : 0 < (occupiedSlots m).card :=
  Finset.card_pos.mpr ⟨i, mem_occupiedSlots.mpr ⟨hi, h⟩⟩

theorem card_occupiedSlots_le (mgr : SessionManager) : (occupiedSlots mgr).card ≤ maxSessions :=
  (Finset.card_filter_le _ _).trans (Finset.card_range _).le

theorem card_occupiedSlots_insert (mgr : SessionManager) {i : Nat} (s : Session) (hi : i < maxSessions)
    (free : mgr.sessions i = none) :
    (occupiedSlots (mgr.insert i s)).card = (occupiedSlots mgr).card + 1 := by
  rw [← Finset.card_insert_of_notMem (s := occupiedSlots mgr) (a := i)]
  · congr 1
    ext j
    by_cases hji : j = i <;> simp [SessionManager.occupied, hji, hi]
  · simp [SessionManager.occupied, free]

theorem card_occupiedSlots_remove {mgr : SessionManager} {i : Nat} {s : Session} (hi : i < maxSessions)
    (hget : mgr.sessions i = some s) :
    (occupiedSlots (mgr.remove i s)).card + 1 = (occupiedSlots mgr).card := by
  have hmem : i ∈ occupiedSlots mgr := by
    simp [SessionManager.occupied, hi, hget]
  rw [← Finset.card_erase_add_one hmem]
  congr 2
  ext j
  by_cases hji : j = i <;> simp [SessionManager.occupied, hji]

theorem occupiedSlots_setSlot {mgr : SessionManager} {i : Nat} {s : Session} (s' : Session)
    (hget : mgr.sessions i = some s) : occupiedSlots (mgr.setSlot i (some s')) = occupiedSlots mgr := by
  ext j
  by_cases hji : j = i <;> simp [SessionManager.occupied, hji, hget]

/-- The counter goes down by one when a slot that counts is emptied. -/
theorem remove_activeSessionCount {mgr : SessionManager} (i : Nat) (s : Session)
    (hpos : 0 < mgr.activeSessionCount.toNat) :
    (mgr.remove i s).activeSessionCount.toNat + 1 = mgr.activeSessionCount.toNat := by
  have hgt : mgr.activeSessionCount > 0 := UInt64.lt_iff_toNat_lt.mpr hpos
  have hle : (1 : UInt64) ≤ mgr.activeSessionCount := UInt64.le_iff_toNat_le.mpr hpos
  simp only [SessionManager.remove, hgt, if_true, UInt64.toNat_sub_of_le _ _ hle, UInt64.toNat_one]
  omega

theorem Table.refines (h : Table w) : Refines w where
  toRepresents := h.toRepresents
  get sessionId := by
    cases hl : w.live sessionId with
    | none => simp [sessionGet, h.find_none hl]
    | some s =>
      obtain ⟨i, _, _, hf⟩ := h.find hl
      cases ha : s.isActive <;> simp [sessionGet, hf, ha, Option.filter]
  markInactive sessionId s hs := by
    obtain ⟨i, hi, hget, hf⟩ := h.find hs
    exact ⟨i, hi, hget, by simp [sessionMarkInactive, hf]⟩
  destroy sessionId s hs := by
    obtain ⟨i, hi, hget, hf⟩ := h.find hs
    have hpos := card_occupiedSlots_pos (m := w.mgr) hi (by simp [SessionManager.occupied, hget])
    rw [← h.counted] at hpos
    have hd : sessionDestroy w.mgr sessionId = w.mgr.remove i s := by simp [sessionDestroy, hf]
    refine ⟨i, hi, hget, ?_, ?_, ?_⟩ <;> rw [hd]
    · rfl
    · simp [SessionManager.remove, h.opened i hi s hget]
    · exact remove_activeSessionCount i s hpos

/-- The two ways in which `session_create` ends. -/
inductive Created (mgr : SessionManager) (fault : CreateFault) (socketFd : Int) :
    SessionManager → UInt64 → Prop where
  | refused (next : UInt64) (fails : ¬ Stores mgr fault socketFd) :
    Created mgr fault socketFd (mgr.setNext next) 0
  | stored (i : Nat) (stores : Stores mgr fault socketFd) (hi : i < maxSessions)
    (free : mgr.sessions i = none) (path : OnPath mgr mgr.nextSessionId i) :
    Created mgr fault socketFd
      ((mgr.setNext (mgr.nextSessionId + 1)).insert i (newSession mgr.nextSessionId socketFd))
      mgr.nextSessionId

theorem created (fault : CreateFault) (mgr : SessionManager) (socketFd : Int) :
    Created mgr fault socketFd (sessionCreate fault mgr socketFd).1
      (sessionCreate fault mgr socketFd).2 := by
  unfold sessionCreate
  split
  · rename_i hfd
    exact .refused mgr.nextSessionId fun h => absurd h.1 (by omega)
  · rename_i hfd
    split
    · rename_i hf
      exact .refused mgr.nextSessionId fun h => by simp [h.2.1] at hf
    · rename_i hc
      simp only
      cases hscan : scan maxSessions (fun i => !mgr.occupied i) maxSessions
          (hashSessionId mgr.nextSessionId) with
      | none =>
        refine .refused _ fun h => ?_
        obtain ⟨i, hi, hfree⟩ := h.2.2
        have hnot := (scan_eq_none (hashSessionId_lt _)).mp hscan i hi
        simp [hfree] at hnot
      | some i =>
        obtain ⟨hi, hstop, hbefore⟩ := (scan_eq_some (hashSessionId_lt _)).mp hscan
        cases fault with
        | calloc => exact absurd rfl hc
        | responseInit => exact .refused _ fun h => by cases h.2.1
        | mutexInit => exact .refused _ fun h => by cases h.2.1
        | none =>
          refine .stored i ⟨by omega, rfl, i, hi, by simpa using hstop⟩ hi ?_ ?_
          · simpa [SessionManager.occupied] using hstop
          · exact fun d hd => by simpa using hbefore d hd

private theorem occupied_update_some {mgr mgr' : SessionManager} {i : Nat} {s : Session}
    (h : mgr'.sessions = Function.update mgr.sessions i (some s)) (j : Nat) (hj : mgr.occupied j = true) :
    mgr'.occupied j = true := by
  by_cases hji : j = i
  · subst hji
    simp [SessionManager.occupied, h]
  · simpa [SessionManager.occupied, h, hji] using hj

/-- A session of a new id in a free slot at the end of its probe path. -/
theorem Table.insert (h : Table w) {i : Nat} {s : Session} (next : UInt64) (hi : i < maxSessions)
    (free : w.mgr.sessions i = none) (path : OnPath w.mgr s.sessionId i) (hz : s.sessionId ≠ 0)
    (hfd : 0 ≤ s.socketFd)
    (hnew : ∀ j < maxSessions, ∀ t, w.mgr.sessions j = some t → t.sessionId ≠ s.sessionId) :
    Table ⟨(w.mgr.setNext next).insert i s, Function.update w.live s.sessionId (some s)⟩ := by
  have hcard : (occupiedSlots ((w.mgr.setNext next).insert i s)).card = (occupiedSlots w.mgr).card + 1 :=
    card_occupiedSlots_insert (w.mgr.setNext next) s hi free
  refine { entry := ?_, unique := ?_, slot := ?_, nonzero := ?_, opened := ?_, chained := ?_, counted := ?_ }
  · intro j hj t ht
    rcases SessionManager.sessions_insert.mp ht with ⟨_, rfl⟩ | ⟨_, ht⟩
    · simp
    · simpa [hnew j hj t ht] using h.entry j hj t ht
  · intro j hj k hk t u ht hu he
    rcases SessionManager.sessions_insert.mp ht with ⟨rfl, rfl⟩ | ⟨hji, ht'⟩
    · rcases SessionManager.sessions_insert.mp hu with ⟨rfl, rfl⟩ | ⟨_, hu'⟩
      · rfl
      · exact absurd he.symm (hnew k hk u hu')
    · rcases SessionManager.sessions_insert.mp hu with ⟨rfl, rfl⟩ | ⟨_, hu'⟩
      · exact absurd he (hnew j hj t ht')
      · exact h.unique j hj k hk t u ht' hu' he
  · intro sessionId t ht
    by_cases hid : sessionId = s.sessionId
    · subst hid
      obtain rfl : s = t := by simpa using ht
      exact ⟨rfl, i, hi, by simp⟩
    · obtain ⟨he, j, hj, hget⟩ := h.slot sessionId t (by simpa [hid] using ht)
      have hji : j ≠ i := by
        rintro rfl
        rw [free] at hget
        cases hget
      exact ⟨he, j, hj, by simpa [hji] using hget⟩
  · intro j hj t ht
    rcases SessionManager.sessions_insert.mp ht with ⟨_, rfl⟩ | ⟨_, ht⟩
    · exact hz
    · exact h.nonzero j hj t ht
  · intro j hj t ht
    rcases SessionManager.sessions_insert.mp ht with ⟨_, rfl⟩ | ⟨_, ht⟩
    · exact hfd
    · exact h.opened j hj t ht
  · intro j hj t ht
    rcases SessionManager.sessions_insert.mp ht with ⟨rfl, rfl⟩ | ⟨_, ht⟩
    · exact path.mono (occupied_update_some rfl)
    · exact (h.chained j hj t ht).mono (occupied_update_some rfl)
  · have hle := card_occupiedSlots_le ((w.mgr.setNext next).insert i s)
    have hmax : maxSessions = 256 := rfl
    simp only [SessionManager.insert_activeSessionCount, SessionManager.setNext_activeSessionCount,
      UInt64.toNat_add, UInt64.toNat_one, h.counted]
    omega

/-- A session of the same id and descriptor in the place of an old one. -/
theorem Table.replace (h : Table w) {i : Nat} {s : Session} (s' : Session) (hi : i < maxSessions)
    (hget : w.mgr.sessions i = some s) (hid : s'.sessionId = s.sessionId)
    (hfd : s'.socketFd = s.socketFd) :
    Table ⟨w.mgr.setSlot i (some s'), Function.update w.live s.sessionId (some s')⟩ := by
  have hold : ∀ j t, (w.mgr.setSlot i (some s')).sessions j = some t →
      ∃ u, w.mgr.sessions j = some u ∧ t.sessionId = u.sessionId ∧ t.socketFd = u.socketFd ∧
        (j = i ∧ t = s' ∨ j ≠ i ∧ t = u) := by
    intro j t ht
    rcases SessionManager.sessions_setSlot.mp ht with ⟨rfl, rfl⟩ | ⟨hji, ht⟩
    · exact ⟨s, hget, hid, hfd, .inl ⟨rfl, rfl⟩⟩
    · exact ⟨t, ht, rfl, rfl, .inr ⟨hji, rfl⟩⟩
  refine { entry := ?_, unique := ?_, slot := ?_, nonzero := ?_, opened := ?_, chained := ?_, counted := ?_ }
  · intro j hj t ht
    obtain ⟨u, hu, _, _, ⟨_, rfl⟩ | ⟨hji, rfl⟩⟩ := hold j t ht
    · simp [hid]
    · have hne : t.sessionId ≠ s.sessionId := fun he => hji (h.unique j hj i hi t s hu hget he)
      simpa [hne] using h.entry j hj t hu
  · intro j hj k hk t u ht hu he
    obtain ⟨t', ht', htid, _, _⟩ := hold j t ht
    obtain ⟨u', hu', huid, _, _⟩ := hold k u hu
    exact h.unique j hj k hk t' u' ht' hu' (htid.symm.trans (he.trans huid))
  · intro sessionId t ht
    by_cases he : sessionId = s.sessionId
    · subst he
      obtain rfl : s' = t := by simpa using ht
      exact ⟨hid, i, hi, by simp⟩
    · obtain ⟨hid', j, hj, hget'⟩ := h.slot sessionId t (by simpa [he] using ht)
      have hji : j ≠ i := by
        rintro rfl
        rw [hget] at hget'
        obtain rfl := Option.some.inj hget'
        exact he hid'.symm
      exact ⟨hid', j, hj, by simpa [hji] using hget'⟩
  · intro j hj t ht
    obtain ⟨u, hu, htid, _, _⟩ := hold j t ht
    rw [htid]
    exact h.nonzero j hj u hu
  · intro j hj t ht
    obtain ⟨u, hu, _, htfd, _⟩ := hold j t ht
    rw [htfd]
    exact h.opened j hj u hu
  · intro j hj t ht
    obtain ⟨u, hu, htid, _, _⟩ := hold j t ht
    rw [htid]
    exact (h.chained j hj u hu).mono (occupied_update_some rfl)
  · simp only [SessionManager.setSlot_activeSessionCount, h.counted, occupiedSlots_setSlot s' hget]

/-- A session that no other one was probed past leaves the table. -/
theorem Table.remove (h : Table w) {i : Nat} {s : Session} (hi : i < maxSessions)
    (hget : w.mgr.sessions i = some s)
    (hfar : ∀ j < maxSessions, j ≠ i → ∀ t, w.mgr.sessions j = some t →
      gap maxSessions (hashSessionId t.sessionId) j ≤ gap maxSessions (hashSessionId t.sessionId) i) :
    Table ⟨w.mgr.remove i s, Function.update w.live s.sessionId none⟩ := by
  have hcard := card_occupiedSlots_remove hi hget
  refine { entry := ?_, unique := ?_, slot := ?_, nonzero := ?_, opened := ?_, chained := ?_, counted := ?_ }
  · intro j hj t ht
    obtain ⟨hji, ht⟩ := SessionManager.sessions_remove.mp ht
    have hne : t.sessionId ≠ s.sessionId := fun he => hji (h.unique j hj i hi t s ht hget he)
    simpa [hne] using h.entry j hj t ht
  · intro j hj k hk t u ht hu he
    exact h.unique j hj k hk t u (SessionManager.sessions_remove.mp ht).2 (SessionManager.sessions_remove.mp hu).2 he
  · intro sessionId t ht
    have hne : sessionId ≠ s.sessionId := by
      rintro rfl
      simp at ht
    obtain ⟨hid, j, hj, hget'⟩ := h.slot sessionId t (by simpa [hne] using ht)
    have hji : j ≠ i := by
      rintro rfl
      rw [hget] at hget'
      obtain rfl := Option.some.inj hget'
      exact hne hid.symm
    exact ⟨hid, j, hj, by simpa [hji] using hget'⟩
  · intro j hj t ht
    exact h.nonzero j hj t (SessionManager.sessions_remove.mp ht).2
  · intro j hj t ht
    exact h.opened j hj t (SessionManager.sessions_remove.mp ht).2
  · intro j hj t ht d hd
    obtain ⟨hji, ht⟩ := SessionManager.sessions_remove.mp ht
    have hne : slot maxSessions (hashSessionId t.sessionId) d ≠ i := by
      intro he
      have hgap := gap_slot (hashSessionId_lt t.sessionId)
        (Nat.lt_trans hd (gap_lt (by decide : 0 < maxSessions) j))
      rw [he] at hgap
      have hle := hfar j hj hji t ht
      omega
    simpa [SessionManager.occupied, hne] using h.chained j hj t ht d hd
  · have hpos : 0 < w.mgr.activeSessionCount.toNat := by
      rw [h.counted]
      exact card_occupiedSlots_pos hi (by simp [SessionManager.occupied, hget])
    have hdec := remove_activeSessionCount i s hpos
    have hcount := h.counted
    simp only
    omega

theorem table_step (h : Table w) {c : Call} (hk : KeepsTable w c) : Table (perform w c) := by
  cases c with
  | create fault socketFd =>
    have hc := created fault w.mgr socketFd
    unfold KeepsTable at hk
    generalize hr : sessionCreate fault w.mgr socketFd = result at hc
    obtain ⟨mgr, sessionId⟩ := result
    simp only [perform, hr]
    cases hc with
    | refused next fails =>
      exact ⟨⟨h.entry, h.unique, h.slot⟩, h.nonzero, h.opened, h.chained, h.counted⟩
    | stored i stores hi free path =>
      obtain ⟨hz, hnew⟩ := hk stores
      simp only [hz, if_false]
      exact h.insert _ hi free path hz stores.1 hnew
  | markInactive sessionId =>
    cases hl : w.live sessionId with
    | none =>
      have hsame : Function.update w.live sessionId none = w.live := by
        rw [← hl, Function.update_eq_self]
      simpa [perform, sessionMarkInactive, h.find_none hl, hl, hsame] using h
    | some s =>
      obtain ⟨hid, _⟩ := h.slot sessionId s hl
      obtain ⟨i, hi, hget, hf⟩ := h.find hl
      simpa [perform, sessionMarkInactive, hf, hl, hid] using
        h.replace s.markInactive hi hget rfl rfl
  | destroy sessionId =>
    cases hl : w.live sessionId with
    | none =>
      have hsame : Function.update w.live sessionId none = w.live := by
        rw [← hl, Function.update_eq_self]
      simpa [perform, sessionDestroy, h.find_none hl, hsame] using h
    | some s =>
      obtain ⟨hid, _⟩ := h.slot sessionId s hl
      obtain ⟨i, hi, hget, hf⟩ := h.find hl
      simpa [perform, sessionDestroy, hf, hid] using h.remove hi hget (hk i hi s hget hid)

/-- Where destroying reaches every session, so does the probe path of each. -/
theorem Refines.onPath (h : Refines w) {j : Nat} {t : Session} (hj : j < maxSessions)
    (ht : w.mgr.sessions j = some t) : OnPath w.mgr t.sessionId j := by
  obtain ⟨k, _, hk, hempty, _⟩ := h.destroy t.sessionId t (h.entry j hj t ht)
  cases hf : sessionFind w.mgr t.sessionId with
  | none =>
    simp only [sessionDestroy, hf] at hempty
    have hat := congrFun hempty k
    simp [hk] at hat
  | some found =>
    obtain ⟨i, s⟩ := found
    obtain ⟨hi, hget, hid, _, hreach⟩ := sessionFind_some hf
    rwa [h.unique _ hi j hj _ t hget ht hid] at hreach

theorem keeps_of_refines (h : Table w) {c : Call} (h' : Refines (perform w c)) : KeepsTable w c := by
  cases c with
  | create fault socketFd =>
    have hc := created fault w.mgr socketFd
    generalize hr : sessionCreate fault w.mgr socketFd = result at hc
    obtain ⟨mgr, sessionId⟩ := result
    simp only [perform, hr] at h'
    intro stores
    cases hc with
    | refused next fails => exact absurd stores fails
    | stored i _ hi free path =>
      constructor
      · intro hz
        have hlive := h'.entry i hi (newSession w.mgr.nextSessionId socketFd) (by simp)
        obtain ⟨hid, j, hj, hget⟩ := h.slot _ _ (by simpa [hz] using hlive)
        exact h.nonzero j hj _ hget rfl
      · intro j hj s hget he
        have hji : j ≠ i := by
          rintro rfl
          rw [free] at hget
          cases hget
        exact hji (h'.unique j hj i hi s (newSession w.mgr.nextSessionId socketFd)
          (by simpa [hji] using hget) (by simp) he)
  | markInactive sessionId => trivial
  | destroy sessionId =>
    intro i hi s hget hid j hj hji t ht
    obtain ⟨k, hk, hget', hf⟩ := h.find (h.entry i hi s hget)
    obtain rfl := h.unique k hk i hi s s hget' hget rfl
    rw [← hid] at h'
    simp only [perform, sessionDestroy, hf] at h'
    by_contra hgap
    have hocc := (h'.onPath hj (t := t) (by simpa [hji] using ht)).not_free
      (hashSessionId_lt _) hi (by omega)
    simp [SessionManager.occupied] at hocc

/-- The runs of the session manager that refine the map: for every sequence of calls, the
table keeps to the map in every state if and only if no stored session takes over a used
id and no destroy empties a slot that another session was probed past. -/
theorem session_table_refines_iff (calls : List Call) :
    Always step Refines initial calls ↔ Along step KeepsTable initial calls :=
  always_iff_along
    (fun _ _ _ h hk hs => Option.some.inj hs ▸ table_step h hk) (fun _ h => h.refines)
    (fun _ _ _ h hs h' => keeps_of_refines h (Option.some.inj hs ▸ h')) table_initial

/-- Session 1 and, after it, `count` sessions that are destroyed as soon as they are created. -/
def shortSessions : Nat → List Call
  | 0 => [.create .none 3]
  | count + 1 => shortSessions count ++ [.create .none 4, .destroy (UInt64.ofNat (count + 2))]

/-- Only session 1 is in the table, in its own slot. -/
structure Alone (next : Nat) (w : World) : Prop where
  sessions : w.mgr.sessions = Function.update (fun _ => none) 1 (some (newSession 1 3))
  nextSessionId : w.mgr.nextSessionId = UInt64.ofNat next
  live : w.live = Function.update (fun _ => none) 1 (some (newSession 1 3))

private theorem hashSessionId_ofNat {n : Nat} (h : n < 2 ^ 64) :
    hashSessionId (UInt64.ofNat n) = n % maxSessions := by
  rw [hashSessionId, UInt64.toNat_ofNat_of_lt' h]

private theorem perform_create (socketFd : Int) {i : Nat} (hfd : 0 ≤ socketFd)
    (hz : w.mgr.nextSessionId ≠ 0)
    (hscan : scan maxSessions (fun j => !w.mgr.occupied j) maxSessions
      (hashSessionId w.mgr.nextSessionId) = some i) :
    perform w (.create .none socketFd) =
      ⟨(w.mgr.setNext (w.mgr.nextSessionId + 1)).insert i (newSession w.mgr.nextSessionId socketFd),
        Function.update w.live w.mgr.nextSessionId (some (newSession w.mgr.nextSessionId socketFd))⟩ := by
  have hnot : ¬ socketFd < 0 := by omega
  simp [perform, sessionCreate, hnot, hscan, hz]

private theorem perform_destroy {i : Nat} {s : Session}
    (hscan : scan maxSessions (fun j => !w.mgr.occupied j || w.mgr.holds s.sessionId j) maxSessions
      (hashSessionId s.sessionId) = some i) (hget : w.mgr.sessions i = some s) (hz : s.sessionId ≠ 0) :
    perform w (.destroy s.sessionId) = ⟨w.mgr.remove i s, Function.update w.live s.sessionId none⟩ := by
  simp [perform, sessionDestroy, sessionFind, hscan, hget, hz]

private theorem update_back {α β : Type} [DecidableEq α] {f : α → Option β} {a : α} (h : f a = none)
    (b : Option β) : Function.update (Function.update f a b) a none = f := by
  rw [Function.update_idem, ← h, Function.update_eq_self]

private theorem alone_pair {n : Nat} (h : Alone n w) (hl : 2 ≤ n) (hu : n ≤ 256) :
    ∃ w', run step w [.create .none 4, .destroy (UInt64.ofNat n)] = some w' ∧ Alone (n + 1) w' := by
  have hhash := hashSessionId_ofNat (n := n) (by omega)
  have hmod : n % maxSessions ≠ 1 := by
    change n % 256 ≠ 1
    omega
  have hz : UInt64.ofNat n ≠ 0 := by
    intro he
    have hn := congrArg UInt64.toNat he
    rw [UInt64.toNat_ofNat_of_lt' (Nat.lt_of_le_of_lt hu (by decide))] at hn
    simp only [UInt64.toNat_zero] at hn
    omega
  have hone : UInt64.ofNat n ≠ 1 := by
    intro he
    rw [he] at hhash
    exact hmod hhash.symm
  have hfree : w.mgr.sessions (n % maxSessions) = none := by simp [h.sessions, hmod]
  have hcreate := perform_create (w := w) 4 (i := n % maxSessions) (by decide)
    (by rwa [h.nextSessionId]) (by
      rw [h.nextSessionId, hhash]
      exact scan_start (by decide) (by simp [SessionManager.occupied, hfree]))
  rw [h.nextSessionId] at hcreate
  have hdestroy := perform_destroy (w := perform w (.create .none 4)) (i := n % maxSessions)
    (s := newSession (UInt64.ofNat n) 4) (by
      rw [hcreate]
      change scan _ _ _ (hashSessionId (UInt64.ofNat n)) = _
      rw [hhash]
      exact scan_start (by decide) (by simp [SessionManager.holds])) (by simp [hcreate]) hz
  refine ⟨_, rfl, ?_⟩
  change Alone (n + 1) (perform (perform w _) (.destroy (newSession (UInt64.ofNat n) 4).sessionId))
  rw [hdestroy, hcreate]
  constructor
  · exact (update_back hfree _).trans h.sessions
  · simp [SessionManager.remove, SessionManager.insert, SessionManager.setNext]
  · have hlive : w.live (UInt64.ofNat n) = none := by simp [h.live, hone]
    exact (update_back hlive _).trans h.live

private theorem alone_shortSessions (count : Nat) (h : count ≤ 255) :
    ∃ w, run step initial (shortSessions count) = some w ∧ Alone (count + 2) w := by
  induction count with
  | zero =>
    have hcreate := perform_create (w := initial) 3 (i := 1) (by decide) (by decide)
      (scan_start (by decide) rfl)
    refine ⟨_, rfl, ?_⟩
    rw [hcreate]
    exact ⟨rfl, rfl, rfl⟩
  | succ count ih =>
    obtain ⟨w, hrun, halone⟩ := ih (by omega)
    obtain ⟨w', hpair, halone'⟩ := alone_pair halone (by omega) (by omega)
    refine ⟨w', ?_, halone'⟩
    rw [shortSessions, run_append, hrun]
    exact hpair

/-- Session 257 goes to the slot behind session 1, which is destroyed: the lookup of 257
stops at the emptied slot although the session was neither marked nor destroyed. -/
theorem live_session_lost : ¬ ∀ calls : List Call, Always step Refines initial calls := by
  intro h
  obtain ⟨w, hrun, halone⟩ := alone_shortSessions 255 (le_refl 255)
  have hnext : w.mgr.nextSessionId = 257 := halone.nextSessionId
  have hcreate := perform_create (w := w) 5 (i := 2) (by decide)
    (by rw [hnext]; decide) (by
      rw [hnext, scan_eq_some (hashSessionId_lt _)]
      refine ⟨by decide, by simp [SessionManager.occupied, halone.sessions], fun d hd => ?_⟩
      obtain rfl : d = 0 := by
        have hgap : gap maxSessions (hashSessionId 257) 2 = 1 := by decide
        omega
      have hslot : slot maxSessions (hashSessionId 257) 0 = 1 := by decide
      simp [hslot, SessionManager.occupied, halone.sessions])
  have hone : hashSessionId (newSession 1 3).sessionId = 1 := by decide
  have hdestroy := perform_destroy (w := perform w (.create .none 5)) (i := 1) (s := newSession 1 3)
    (by
      rw [hcreate, hone]
      refine scan_start (by decide) ?_
      simp [SessionManager.holds, halone.sessions])
    (by simp [hcreate, halone.sessions]) (by decide)
  rw [hcreate, hnext] at hdestroy
  have hlost := ((h (shortSessions 255 ++ [.create .none 5, .destroy 1])).last
    (t := perform (perform w (.create .none 5)) (.destroy 1)) (by
      rw [run_append, hrun]
      rfl)).get 257
  change sessionGet (perform _ (.destroy (newSession 1 3).sessionId)).mgr 257 =
    ((perform _ (.destroy (newSession 1 3).sessionId)).live 257).filter Session.isActive at hlost
  rw [hcreate, hnext, hdestroy] at hlost
  -- The probe of 257 starts at the slot that session 1 has left.
  have hscan (mgr : SessionManager) (s : Session) : sessionFind (mgr.remove 1 s) 257 = none := by
    have hhash : hashSessionId 257 = 1 := by decide
    have hstart : scan maxSessions
        (fun j => !(mgr.remove 1 s).occupied j || (mgr.remove 1 s).holds 257 j) maxSessions 1 = some 1 :=
      scan_start (by decide) (by simp [SessionManager.occupied])
    simp [sessionFind, hhash, hstart]
  simp [sessionGet, hscan, newSession, Option.filter] at hlost

end Stash.Sessions
