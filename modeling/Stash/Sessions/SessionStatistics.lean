import Mathlib.Order.Bounds.Basic
import Stash.Sessions.SessionRefinement

/-! The session table and its statistics in every run of calls: the ids that are stored, the four
counters, and what `session_create` does to a table with or without room. -/
namespace Stash.Sessions.Statistics
open Foundation.LinearProbing Foundation.Runs

/-- The manager, with the number of occupied slots of every state so far, this one included, and
the ids that `session_create` has returned. -/
structure Record where
  mgr : SessionManager
  occupancies : List Nat
  returned : List UInt64

def manager (mgr : SessionManager) : Call → SessionManager
  | .create fault socketFd => (sessionCreate fault mgr socketFd).1
  | .markInactive sessionId => sessionMarkInactive mgr sessionId
  | .destroy sessionId => sessionDestroy mgr sessionId

def ids (mgr : SessionManager) : Call → List UInt64
  | .create fault socketFd => [(sessionCreate fault mgr socketFd).2]
  | .markInactive _ | .destroy _ => []

def occupancy (mgr : SessionManager) : Nat := (occupiedSlots mgr).card

def step (r : Record) (c : Call) : Option Record :=
  some ⟨manager r.mgr c, r.occupancies ++ [occupancy (manager r.mgr c)], r.returned ++ ids r.mgr c⟩

/-- The manager that `session_manager_init` leaves. -/
def start : Record := ⟨initial.mgr, [0], []⟩

/-- The calls go through the states of the table beside its map. -/
theorem perform_mgr (w : World) (c : Call) : (perform w c).mgr = manager w.mgr c := by
  cases c with
  | create fault socketFd => rfl
  | markInactive sessionId => rfl
  | destroy sessionId => rfl

/-- The counter of ids does not wrap around in this call. -/
def CounterStays (r : Record) (c : Call) : Prop :=
  r.mgr.nextSessionId ≤ (manager r.mgr c).nextSessionId

instance (r : Record) (c : Call) : Decidable (CounterStays r c) :=
  inferInstanceAs (Decidable (r.mgr.nextSessionId ≤ (manager r.mgr c).nextSessionId))

structure Counted (r : Record) : Prop where
  active : r.mgr.activeSessionCount.toNat = occupancy r.mgr
  peak : IsGreatest {n | n ∈ r.occupancies} r.mgr.peakSessionCount.toNat
  peak_le : r.mgr.peakSessionCount.toNat ≤ maxSessions

structure Identified (r : Record) : Prop where
  distinct : ∀ i < maxSessions, ∀ j < maxSessions, ∀ s t, r.mgr.sessions i = some s →
    r.mgr.sessions j = some t → s.sessionId = t.sessionId → i = j
  nonzero : ∀ i < maxSessions, ∀ s, r.mgr.sessions i = some s → s.sessionId ≠ 0
  below : ∀ i < maxSessions, ∀ s, r.mgr.sessions i = some s → s.sessionId < r.mgr.nextSessionId
  total : r.mgr.totalSessionsCreated.toNat = r.returned.countP fun sessionId => sessionId ≠ 0

/-- No occupied slot is overwritten by a new session, and the count of active sessions is positive
whenever one of them is destroyed. -/
def KeepsSlots (r : Record) : Call → Prop
  | .create fault socketFd => ∀ i s, r.mgr.sessions i = some s →
      (sessionCreate fault r.mgr socketFd).1.sessions i = some s
  | .markInactive _ => True
  | .destroy sessionId => (sessionFind r.mgr sessionId).isSome → r.mgr.activeSessionCount > 0

def Full (mgr : SessionManager) : Prop := ∀ i < maxSessions, mgr.occupied i = true

/-- When none of its calls fails, `session_create` returns 0 exactly for a negative descriptor or a
full table, and then changes nothing but `next_session_id`. -/
def Answers (r : Record) : Call → Prop
  | .create fault socketFd => fault = .none →
      ((sessionCreate fault r.mgr socketFd).2 = 0 ↔ socketFd < 0 ∨ Full r.mgr) ∧
      ((sessionCreate fault r.mgr socketFd).2 = 0 →
        ∃ next, (sessionCreate fault r.mgr socketFd).1 = r.mgr.setNext next)
  | .markInactive _ | .destroy _ => True

/-- What a call can do to the manager. -/
inductive Change (mgr : SessionManager) : Call → SessionManager → List UInt64 → Prop where
  | refused (fault : CreateFault) (socketFd : Int) (next : UInt64) (fails : ¬ Stores mgr fault socketFd) :
    Change mgr (.create fault socketFd) (mgr.setNext next) [0]
  | stored (fault : CreateFault) (socketFd : Int) (i : Nat) (stores : Stores mgr fault socketFd)
    (hi : i < maxSessions) (free : mgr.sessions i = none) :
    Change mgr (.create fault socketFd)
      ((mgr.setNext (mgr.nextSessionId + 1)).insert i (newSession mgr.nextSessionId socketFd)) [mgr.nextSessionId]
  | marked (sessionId : UInt64) (i : Nat) (s : Session) (hget : mgr.sessions i = some s) :
    Change mgr (.markInactive sessionId) (mgr.setSlot i (some s.markInactive)) []
  | destroyed (sessionId : UInt64) (i : Nat) (s : Session) (hi : i < maxSessions)
    (hget : mgr.sessions i = some s) : Change mgr (.destroy sessionId) (mgr.remove i s) []
  | missed (c : Call) (silent : ids mgr c = []) : Change mgr c mgr []

theorem change (mgr : SessionManager) (c : Call) : Change mgr c (manager mgr c) (ids mgr c) := by
  cases c with
  | create fault socketFd =>
    have hc := created fault mgr socketFd
    simp only [manager, ids]
    generalize (sessionCreate fault mgr socketFd).1 = mgr' at hc
    generalize (sessionCreate fault mgr socketFd).2 = sessionId at hc
    cases hc with
    | refused next fails => exact .refused fault socketFd next fails
    | stored i stores hi free path => exact .stored fault socketFd i stores hi free
  | markInactive sessionId =>
    simp only [manager, ids, sessionMarkInactive]
    split
    · rename_i i s hfind
      exact .marked sessionId i s (sessionFind_some hfind).2.1
    · exact .missed _ rfl
  | destroy sessionId =>
    simp only [manager, ids, sessionDestroy]
    split
    · rename_i i s hfind
      exact .destroyed sessionId i s (sessionFind_some hfind).1 (sessionFind_some hfind).2.1
    · exact .missed _ rfl

variable {r r' : Record} {mgr : SessionManager} {c : Call}

/-- What every run of calls keeps. -/
structure Tracked (r : Record) : Prop extends Counted r where
  current : occupancy r.mgr ∈ r.occupancies

theorem occupancy_le (mgr : SessionManager) : occupancy mgr ≤ maxSessions := card_occupiedSlots_le mgr

theorem tracked_start : Tracked start := by
  have hempty : occupancy start.mgr = 0 := by
    simp [occupancy, occupiedSlots, start, initial, SessionManager.occupied]
  refine ⟨⟨hempty.symm, ⟨List.mem_singleton.mpr rfl, ?_⟩, Nat.zero_le _⟩, ?_⟩
  · rintro n hn
    exact (List.mem_singleton.mp hn).le
  · rw [hempty]
    exact List.mem_singleton.mpr rfl

theorem Tracked.next (h : Tracked r) (out : List UInt64) (hactive : mgr.activeSessionCount.toNat = occupancy mgr)
    (hpeak : mgr.peakSessionCount.toNat = max (occupancy mgr) r.mgr.peakSessionCount.toNat) :
    Tracked ⟨mgr, r.occupancies ++ [occupancy mgr], out⟩ := by
  have hset : {n | n ∈ r.occupancies ++ [occupancy mgr]} = insert (occupancy mgr) {n | n ∈ r.occupancies} := by
    ext n
    simp [or_comm]
  refine ⟨⟨hactive, ?_, ?_⟩, List.mem_append_right _ (List.mem_singleton.mpr rfl)⟩
  · rw [hset, hpeak]
    exact h.peak.insert (occupancy mgr)
  · rw [hpeak]
    exact max_le (occupancy_le mgr) h.peak_le

/-- A call that occupies no further slot leaves the peak as it is. -/
theorem Tracked.settled (h : Tracked r) (out : List UInt64) (hactive : mgr.activeSessionCount.toNat = occupancy mgr)
    (hpeak : mgr.peakSessionCount = r.mgr.peakSessionCount) (hle : occupancy mgr ≤ occupancy r.mgr) :
    Tracked ⟨mgr, r.occupancies ++ [occupancy mgr], out⟩ := by
  refine h.next out hactive ?_
  rw [hpeak, max_eq_right (hle.trans (h.peak.2 h.current))]

theorem insert_peak (mgr : SessionManager) (i : Nat) (s : Session) :
    (mgr.insert i s).peakSessionCount.toNat =
      max (mgr.activeSessionCount + 1).toNat mgr.peakSessionCount.toNat := by
  simp only [SessionManager.insert]
  split
  · rename_i hgt
    rw [max_eq_left (UInt64.lt_iff_toNat_lt.mp hgt).le]
  · rename_i hle
    rw [max_eq_right (Nat.le_of_not_lt (mt UInt64.lt_iff_toNat_lt.mpr hle))]

theorem Tracked.step (h : Tracked r) (hs : step r c = some r') : Tracked r' := by
  obtain rfl := Option.some.inj hs
  have hchange := change r.mgr c
  generalize manager r.mgr c = mgr at hchange
  generalize ids r.mgr c = out at hchange
  have hactive := h.active
  cases hchange with
  | refused fault socketFd next fails => exact h.settled _ hactive rfl (Nat.le_refl _)
  | stored fault socketFd i stores hi free =>
    have hcard : occupancy ((r.mgr.setNext (r.mgr.nextSessionId + 1)).insert i
        (newSession r.mgr.nextSessionId socketFd)) = occupancy r.mgr + 1 :=
      card_occupiedSlots_insert (r.mgr.setNext _) _ hi free
    have hle := occupancy_le r.mgr
    have hmax : maxSessions = 256 := rfl
    have hadd : (r.mgr.activeSessionCount + 1).toNat = occupancy r.mgr + 1 := by
      rw [UInt64.toNat_add, UInt64.toNat_one, hactive]
      omega
    refine h.next _ ?_ ?_
    · rw [hcard]
      exact hadd
    · rw [hcard, ← hadd]
      exact insert_peak (r.mgr.setNext _) i _
  | marked sessionId i s hget =>
    have hsame : occupancy (r.mgr.setSlot i (some s.markInactive)) = occupancy r.mgr := by
      rw [occupancy, occupiedSlots_setSlot _ hget, occupancy]
    exact h.settled _ (hactive.trans hsame.symm) rfl hsame.le
  | destroyed sessionId i s hi hget =>
    have hcard : occupancy (r.mgr.remove i s) + 1 = occupancy r.mgr := card_occupiedSlots_remove hi hget
    have hdec := remove_activeSessionCount i s (by rw [hactive]; omega)
    exact h.settled _ (by omega) rfl (by omega)
  | missed c silent => exact h.settled _ hactive rfl (Nat.le_refl _)

/-- Whatever a call finds in the table, the guard of the counter is not needed, and a new session
goes into a free slot. -/
theorem Tracked.keepsSlots (h : Tracked r) (c : Call) : KeepsSlots r c := by
  cases c with
  | create fault socketFd =>
    intro i s hget
    have hc := created fault r.mgr socketFd
    generalize (sessionCreate fault r.mgr socketFd).1 = mgr at hc ⊢
    generalize (sessionCreate fault r.mgr socketFd).2 = sessionId at hc
    cases hc with
    | refused next fails => exact hget
    | stored j stores hj free path =>
      have hij : i ≠ j := by
        rintro rfl
        rw [free] at hget
        cases hget
      simpa [hij] using hget
  | markInactive sessionId => trivial
  | destroy sessionId =>
    intro hfound
    obtain ⟨⟨i, s⟩, hfind⟩ := Option.isSome_iff_exists.mp hfound
    obtain ⟨hi, hget, _⟩ := sessionFind_some hfind
    have hpos := card_occupiedSlots_pos hi (show r.mgr.occupied i = true by simp [SessionManager.occupied, hget])
    refine UInt64.lt_iff_toNat_lt.mpr ?_
    rw [h.active]
    exact hpos

/-- What every run of calls keeps in which the counter of ids does not wrap around. -/
structure Numbered (r : Record) : Prop extends Identified r where
  total_lt : r.mgr.totalSessionsCreated < r.mgr.nextSessionId

theorem numbered_start : Numbered start where
  distinct := by simp [start, initial]
  nonzero := by simp [start, initial]
  below := by simp [start, initial]
  total := rfl
  total_lt := by decide

/-- A call that stores no new session. -/
theorem Numbered.kept (h : Numbered r) (occupancies : List Nat) {out : List UInt64}
    (hold : ∀ i s, mgr.sessions i = some s → ∃ t, r.mgr.sessions i = some t ∧ s.sessionId = t.sessionId)
    (hnext : r.mgr.nextSessionId ≤ mgr.nextSessionId)
    (htotal : mgr.totalSessionsCreated = r.mgr.totalSessionsCreated)
    (hout : ∀ sessionId ∈ out, sessionId = 0) : Numbered ⟨mgr, occupancies, r.returned ++ out⟩ where
  distinct i hi j hj s t hs ht he := by
    obtain ⟨s', hs', hids⟩ := hold i s hs
    obtain ⟨t', ht', hidt⟩ := hold j t ht
    exact h.distinct i hi j hj s' t' hs' ht' (hids.symm.trans (he.trans hidt))
  nonzero i hi s hs := by
    obtain ⟨s', hs', hids⟩ := hold i s hs
    rw [hids]
    exact h.nonzero i hi s' hs'
  below i hi s hs := by
    obtain ⟨s', hs', hids⟩ := hold i s hs
    rw [hids]
    exact UInt64.lt_of_lt_of_le (h.below i hi s' hs') hnext
  total := by
    have hzero : out.countP (fun sessionId => sessionId ≠ 0) = 0 :=
      List.countP_eq_zero.mpr fun sessionId hmem => by simp [hout sessionId hmem]
    rw [htotal, List.countP_append, hzero, Nat.add_zero]
    exact h.total
  total_lt := by
    rw [htotal]
    exact UInt64.lt_of_lt_of_le h.total_lt hnext

theorem toNat_succ {n : UInt64} (h : n ≤ n + 1) : (n + 1).toNat = n.toNat + 1 := by
  rw [UInt64.le_iff_toNat_le, UInt64.toNat_add, UInt64.toNat_one] at h
  have hn := n.toNat_lt
  rw [UInt64.toNat_add, UInt64.toNat_one]
  omega

theorem lt_succ {n : UInt64} (h : n ≤ n + 1) : n < n + 1 := by
  rw [UInt64.lt_iff_toNat_lt, toNat_succ h]
  exact Nat.lt_succ_self _

/-- Id 0 is not given out. -/
theorem Numbered.nextSessionId_ne_zero (h : Numbered r) : r.mgr.nextSessionId ≠ 0 := by
  intro hzero
  have hlt := UInt64.lt_iff_toNat_lt.mp h.total_lt
  rw [hzero] at hlt
  exact absurd hlt (Nat.not_lt_zero _)

/-- The count of sessions stays below the counter of ids, so it does not wrap around either. -/
theorem Numbered.total_succ (h : Numbered r) :
    (r.mgr.totalSessionsCreated + 1).toNat = r.mgr.totalSessionsCreated.toNat + 1 := by
  have hlt := UInt64.lt_iff_toNat_lt.mp h.total_lt
  have hnext := r.mgr.nextSessionId.toNat_lt
  rw [UInt64.toNat_add, UInt64.toNat_one]
  omega

/-- The id of a new session is above all that are stored. -/
theorem Numbered.stored (h : Numbered r) (occupancies : List Nat) (i : Nat) (socketFd : Int)
    (hnext : r.mgr.nextSessionId ≤ r.mgr.nextSessionId + 1) :
    Numbered ⟨(r.mgr.setNext (r.mgr.nextSessionId + 1)).insert i (newSession r.mgr.nextSessionId socketFd),
      occupancies, r.returned ++ [r.mgr.nextSessionId]⟩ where
  distinct j hj k hk s t hs ht he := by
    rcases SessionManager.sessions_insert.mp hs with ⟨rfl, rfl⟩ | ⟨_, hs'⟩
    · rcases SessionManager.sessions_insert.mp ht with ⟨rfl, rfl⟩ | ⟨_, ht'⟩
      · rfl
      · exact absurd he.symm (UInt64.ne_of_lt (h.below k hk t ht'))
    · rcases SessionManager.sessions_insert.mp ht with ⟨rfl, rfl⟩ | ⟨_, ht'⟩
      · exact absurd he (UInt64.ne_of_lt (h.below j hj s hs'))
      · exact h.distinct j hj k hk s t hs' ht' he
  nonzero j hj s hs := by
    rcases SessionManager.sessions_insert.mp hs with ⟨rfl, rfl⟩ | ⟨_, hs⟩
    · exact h.nextSessionId_ne_zero
    · exact h.nonzero j hj s hs
  below j hj s hs := by
    rcases SessionManager.sessions_insert.mp hs with ⟨rfl, rfl⟩ | ⟨_, hs⟩
    · exact lt_succ hnext
    · exact UInt64.lt_trans (h.below j hj s hs) (lt_succ hnext)
  total := by
    have hone : [r.mgr.nextSessionId].countP (fun sessionId => sessionId ≠ 0) = 1 := by
      simp [h.nextSessionId_ne_zero]
    change (r.mgr.totalSessionsCreated + 1).toNat = _
    rw [List.countP_append, hone, ← h.total]
    exact h.total_succ
  total_lt := by
    have hlt := UInt64.lt_iff_toNat_lt.mp h.total_lt
    rw [UInt64.lt_iff_toNat_lt]
    change (r.mgr.totalSessionsCreated + 1).toNat < (r.mgr.nextSessionId + 1).toNat
    rw [h.total_succ, toNat_succ hnext]
    omega

theorem Numbered.step (h : Numbered r) (hstays : CounterStays r c) (hs : step r c = some r') : Numbered r' := by
  obtain rfl := Option.some.inj hs
  have hchange := change r.mgr c
  unfold CounterStays at hstays
  generalize manager r.mgr c = mgr at hchange hstays
  generalize ids r.mgr c = out at hchange
  have hsame : ∀ i s, r.mgr.sessions i = some s → ∃ t, r.mgr.sessions i = some t ∧ s.sessionId = t.sessionId :=
    fun _ s hs => ⟨s, hs, rfl⟩
  cases hchange with
  | refused fault socketFd next fails =>
    exact h.kept _ hsame hstays rfl fun _ hmem => List.mem_singleton.mp hmem
  | stored fault socketFd i stores hi free => exact h.stored _ i socketFd hstays
  | marked sessionId i s hget =>
    refine h.kept _ (fun j t ht => ?_) hstays rfl fun _ hmem => absurd hmem List.not_mem_nil
    rcases SessionManager.sessions_setSlot.mp ht with ⟨rfl, rfl⟩ | ⟨_, ht⟩
    · exact ⟨s, hget, rfl⟩
    · exact ⟨t, ht, rfl⟩
  | destroyed sessionId i s hi hget =>
    refine h.kept _ (fun j t ht => ?_) hstays rfl fun _ hmem => absurd hmem List.not_mem_nil
    exact ⟨t, (SessionManager.sessions_remove.mp ht).2, rfl⟩
  | missed c silent => exact h.kept _ hsame hstays rfl fun _ hmem => absurd hmem List.not_mem_nil

theorem Numbered.answers (h : Numbered r) (c : Call) : Answers r c := by
  cases c with
  | create fault socketFd =>
    intro hfault
    have hc := created fault r.mgr socketFd
    generalize (sessionCreate fault r.mgr socketFd).1 = mgr at hc ⊢
    generalize (sessionCreate fault r.mgr socketFd).2 = sessionId at hc ⊢
    cases hc with
    | refused next fails =>
      refine ⟨iff_of_true rfl ?_, fun _ => ⟨next, rfl⟩⟩
      by_contra hroom
      obtain ⟨hfd, hfull⟩ := not_or.mp hroom
      obtain ⟨i, hi⟩ := not_forall.mp hfull
      obtain ⟨hi, hfree⟩ := Classical.not_imp.mp hi
      exact fails ⟨Int.not_lt.mp hfd, hfault, i, hi, Bool.eq_false_iff.mpr hfree⟩
    | stored i stores hi free path =>
      have hz := h.nextSessionId_ne_zero
      refine ⟨iff_of_false hz ?_, fun hzero => absurd hzero hz⟩
      rintro (hfd | hfull)
      · exact absurd stores.1 (Int.not_le.mpr hfd)
      · have hoccupied := hfull i hi
        simp [SessionManager.occupied, free] at hoccupied
  | markInactive sessionId => trivial
  | destroy sessionId => trivial

/-- In every run of calls the counters and the table agree, no occupied slot is overwritten and the
guard of the counter is not needed; as long as the counter of ids does not wrap around, the ids are
distinct, nonzero and below it, and `session_create` fails for want of a slot only. -/
theorem session_statistics (calls : List Call) :
    Always step Counted start calls ∧ Along step KeepsSlots start calls ∧
      (Along step CounterStays start calls →
        Always step Identified start calls ∧ Along step Answers start calls) := by
  have htracked : Always step Tracked start calls :=
    always_of_step (fun _ _ _ h hs => h.step hs) calls tracked_start
  refine ⟨htracked.mono fun _ h => h.toCounted, htracked.along fun _ c _ h _ => h.keepsSlots c, fun hstays => ?_⟩
  have hnumbered : Always step Numbered start calls :=
    hstays.always (fun _ _ _ h hc hs => h.step hc hs) numbered_start
  exact ⟨hnumbered.mono fun _ h => h.toIdentified, hnumbered.along fun _ c _ h _ => h.answers c⟩

/-- Two sessions; the first is marked inactive and destroyed. -/
theorem session_statistics_two :
    Always step Identified start [.create .none 3, .create .none 4, .markInactive 1, .destroy 1] ∧
      Along step Answers start [.create .none 3, .create .none 4, .markInactive 1, .destroy 1] :=
  (session_statistics _).2.2 (by decide +kernel)

/-- As it would be without the check of the descriptor. -/
def ZeroIffFull (r : Record) : Call → Prop
  | .create fault socketFd => fault = .none → ((sessionCreate fault r.mgr socketFd).2 = 0 ↔ Full r.mgr)
  | .markInactive _ | .destroy _ => True

theorem negative_descriptor_refused :
    ¬ ∀ calls : List Call, Along step CounterStays start calls → Along step ZeroIffFull start calls := by
  intro h
  have hzero := (h [.create .none (-1)] (by decide +kernel) _ rfl).1 rfl
  have hfull := hzero.mp (by decide +kernel) 0 (by decide)
  cases hfull

end Stash.Sessions.Statistics
