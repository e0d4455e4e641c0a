import Stash.Sync.FileLockAccounting

/-! Mutual exclusion of the lock manager. A release clears its slot in the middle of probe
chains; the runs that exclude are exactly those in which no probe reserves a free slot
while the lock of its file is in use behind that slot. -/
namespace Stash.Sync.FileLocks
open Foundation.CText Foundation.LinearProbing Foundation.Runs
variable {Tid : Type}

/-- No two slots in use carry the same key. -/
def UniqueKeys (s : State Tid) : Prop :=
  ∀ i j, i < s.manager.capacity → j < s.manager.capacity →
    (s.manager.locks i).inUse = true → (s.manager.locks j).inUse = true →
    (s.manager.locks i).filepath = (s.manager.locks j).filepath → i = j

/-- At most one thread is between the return of `file_lock_acquire` for a key and its
`file_lock_release`. -/
def Exclusive (s : State Tid) : Prop :=
  ∀ t u i j key, s.phase t = .holding i key → s.phase u = .holding j key → t = u

def MutuallyExclusive (s : State Tid) : Prop := UniqueKeys s ∧ Exclusive s

/-- Every slot before `i` on the probe path of `key` is in use. -/
def OnPath (m : FileLockManager Tid) (key : Bytes) (i : Nat) : Prop :=
  Reached m.capacity (fun j => (m.locks j).inUse) (hashFilepath key m.capacity) i

/-- A probe for a key whose lock is in use meets no free slot before that lock. -/
def NoHiddenEntry (s : State Tid) : Action Tid → Prop
  | .probe _ username filename =>
    ∀ i < s.manager.capacity, (s.manager.locks i).inUse = true →
      (s.manager.locks i).filepath = filepathKey username filename →
      OnPath s.manager (filepathKey username filename) i
  | _ => True

/-- Holders of one key refer to one slot, and the mutex of a slot has one owner. -/
theorem Accounting.exclusive {s : State Tid} (h : Accounting s) (hk : UniqueKeys s) : Exclusive s := by
  intro t u i j key ht hu
  obtain ⟨hi, hiu, hik⟩ := h.referred t i key (by rw [ht]; rfl)
  obtain ⟨hj, hju, hjk⟩ := h.referred u j key (by rw [hu]; rfl)
  obtain rfl := hk i j hi hj hiu hju (hik.trans hjk.symm)
  have htm := (h.owned t i).mpr ⟨key, ht⟩
  have hum := (h.owned u i).mpr ⟨key, hu⟩
  rw [htm] at hum
  exact Option.some.inj hum

variable [DecidableEq Tid]

omit [DecidableEq Tid] in
private theorem unique_same_locks {s s' : State Tid} (h : UniqueKeys s)
    (hm : s'.manager.locks = s.manager.locks) (hc : s'.manager.capacity = s.manager.capacity) :
    UniqueKeys s' := by
  intro i j hi hj
  rw [hm]
  exact h i j (hc ▸ hi) (hc ▸ hj)

private theorem unique_probed {s s' : State Tid} (h : UniqueKeys s) (hacc : Accounting s)
    {t : Tid} {key : Bytes} (hp : Probed s t key s')
    (hpath : ∀ i < s.manager.capacity, (s.manager.locks i).inUse = true →
      (s.manager.locks i).filepath = key → OnPath s.manager key i) : UniqueKeys s' := by
  have hlt := hashFilepath_lt key hacc.capacity_pos
  -- Writing the key into slot `i` is harmless when no other slot in use carries it.
  have write (i : Nat) (count : Int) (halone : ∀ j < s.manager.capacity, j ≠ i →
      (s.manager.locks j).inUse = true → (s.manager.locks j).filepath ≠ key) :
      UniqueKeys ((s.setLock i ⟨key, count, true⟩).setPhase t (.reserved i key)) := by
    intro a b ha hb hau hbu hab
    simp only [setPhase_manager, setLock_locks, setLock_capacity] at *
    by_cases hai : a = i <;> by_cases hbi : b = i
    · rw [hai, hbi]
    · simp only [hai, Function.update_self, Function.update_of_ne hbi] at hau hbu hab
      exact absurd hab.symm (halone b hb hbi hbu)
    · simp only [hbi, Function.update_self, Function.update_of_ne hai] at hau hbu hab
      exact absurd hab (halone a ha hai hau)
    · rw [Function.update_of_ne hai] at hau hab
      rw [Function.update_of_ne hbi] at hbu hab
      exact h a b ha hb hau hbu hab
  cases hp with
  | full _ => exact h
  | joined i stop used same =>
    obtain ⟨hi, _, _⟩ := (scan_eq_some hlt).mp stop
    refine write i _ fun j hj hji hju hjk => hji ?_
    exact h j i hj hi hju used (hjk.trans same.symm)
  | created i stop free =>
    obtain ⟨hi, _, hbefore⟩ := (scan_eq_some hlt).mp stop
    refine write i _ fun j hj hji hju hjk => ?_
    rcases Nat.lt_trichotomy (gap s.manager.capacity (hashFilepath key s.manager.capacity) i)
      (gap s.manager.capacity (hashFilepath key s.manager.capacity) j) with hgap | hgap | hgap
    · have hocc := (hpath j hj hju hjk).not_free hlt hi hgap
      rw [free] at hocc
      cases hocc
    · exact hji (gap_injective hlt hj hi hgap.symm)
    · have hnot := hbefore _ hgap
      rw [slot_gap hlt hj] at hnot
      simp [stops, hjk] at hnot

private theorem unique_drop {s : State Tid} (h : UniqueKeys s) (hacc : Accounting s) {t : Tid}
    {i : Nat} {key : Bytes} (hrel : s.phase t = .released i key) :
    UniqueKeys ((s.setLock i (dropRef (s.manager.locks i))).setPhase t .outside) := by
  have hused := (hacc.referred t i key (by rw [hrel]; rfl)).2.1
  -- A slot that is still in use after the release carries the key that it had.
  have hold (a : Nat) (ha : (Function.update s.manager.locks i (dropRef (s.manager.locks i)) a).inUse = true) :
      (s.manager.locks a).inUse = true ∧
        (Function.update s.manager.locks i (dropRef (s.manager.locks i)) a).filepath =
          (s.manager.locks a).filepath := by
    by_cases hai : a = i
    · subst hai
      rw [Function.update_self] at ha ⊢
      unfold dropRef at ha ⊢
      split at ha
      · cases ha
      · rename_i hgt
        simp [hgt, hused]
    · rw [Function.update_of_ne hai] at ha ⊢
      exact ⟨ha, rfl⟩
  intro a b ha hb hau hbu hab
  obtain ⟨hau', hak⟩ := hold a hau
  obtain ⟨hbu', hbk⟩ := hold b hbu
  exact h a b ha hb hau' hbu' (hak.symm.trans (hab.trans hbk))

/-- A step that reserves no hidden entry keeps the keys unique. -/
theorem unique_step {s s' : State Tid} (h : UniqueKeys s) (hacc : Accounting s) {a : Action Tid}
    (hclean : NoHiddenEntry s a) (hs : step s a = some s') : UniqueKeys s' := by
  cases a with
  | probe t username filename =>
    exact unique_probed h hacc (probed_of_step hacc.capacity_pos hs).2 hclean
  | lock t =>
    obtain ⟨i, key, _, _, rfl⟩ := step_lock hs
    exact unique_same_locks h rfl rfl
  | unlock t =>
    obtain ⟨i, key, _, rfl⟩ := step_unlock hs
    exact unique_same_locks h rfl rfl
  | drop t =>
    obtain ⟨i, key, hrel, rfl⟩ := step_drop hs
    exact unique_drop h hacc hrel

/-- A probe that misses the lock of its file reserves a second slot for it. -/
theorem clean_of_unique {s s' : State Tid} (h : UniqueKeys s) (hacc : Accounting s) {a : Action Tid}
    (hs : step s a = some s') (h' : UniqueKeys s') : NoHiddenEntry s a := by
  cases a with
  | probe t username filename =>
    intro i hi hiu hik
    obtain ⟨_, hp⟩ := probed_of_step hacc.capacity_pos hs
    have hlt := hashFilepath_lt (filepathKey username filename) hacc.capacity_pos
    -- Wherever the probe stops, it has only visited slots in use.
    have reached (j : Nat) (hstop : scan s.manager.capacity
        (stops s.manager.locks (filepathKey username filename)) s.manager.capacity
        (hashFilepath (filepathKey username filename) s.manager.capacity) = some j) (hj : j = i) :
        OnPath s.manager (filepathKey username filename) i := by
      rw [← hj]
      exact reached_of_scan hlt hstop
    generalize hke : filepathKey username filename = key at *
    cases hp with
    | full stop =>
      have hnot := (scan_eq_none hlt).mp stop i hi
      simp [stops, hik] at hnot
    | joined j stop used same =>
      obtain ⟨hj, _, _⟩ := (scan_eq_some hlt).mp stop
      exact reached j stop (h j i hj hi used hiu (same.trans hik.symm))
    | created j stop free =>
      obtain ⟨hj, _, _⟩ := (scan_eq_some hlt).mp stop
      refine reached j stop ?_
      by_contra hne
      exact hne (h' j i hj hi (by simp) (by simpa [Ne.symm hne] using hiu)
        (by simpa [Ne.symm hne] using hik.symm))
  | _ => trivial

/-- The runs of the lock manager that exclude: for every table, every number of threads
and every interleaving, no two slots in use ever carry one key and no key ever has two
holders if and only if no probe reserves a free slot before the lock of its file. -/
theorem mutual_exclusion_iff (capacity : Capacity) (acts : List (Action Tid)) :
    Always step MutuallyExclusive (start Tid capacity) acts ↔
      Along step NoHiddenEntry (start Tid capacity) acts := by
  refine always_iff_along ?_ (fun s (h : Accounting s ∧ UniqueKeys s) => ?_) ?_ ?_
  · intro s a t h hclean hs
    exact ⟨accounting_step h.1 hs, unique_step h.2 h.1 hclean hs⟩
  · exact ⟨h.2, h.1.exclusive h.2⟩
  · exact fun s a t h hs ht => clean_of_unique h.2 h.1 hs ht.1
  · refine ⟨accounting_start capacity, fun i j _ _ hi => ?_⟩
    simp [start, emptyLock] at hi

/-- Every lock in use is met by a probe for its own key. -/
def Chained (m : FileLockManager Tid) : Prop :=
  ∀ i < m.capacity, (m.locks i).inUse = true → OnPath m (m.locks i).filepath i

/-- A release frees its slot only when no other lock in use was probed past it. -/
def KeepsChains (s : State Tid) : Action Tid → Prop
  | .drop t => ∀ i key, s.phase t = .released i key → (s.manager.locks i).refCount ≤ 1 →
      ∀ j < s.manager.capacity, j ≠ i → (s.manager.locks j).inUse = true →
        let hash := hashFilepath (s.manager.locks j).filepath s.manager.capacity
        gap s.manager.capacity hash j ≤ gap s.manager.capacity hash i
  | _ => True

omit [DecidableEq Tid] in
private theorem chained_write {m : FileLockManager Tid} (h : Chained m) {i : Nat} {lock : FileLock}
    (hused : lock.inUse = true) (hi : OnPath m lock.filepath i) :
    Chained { m with locks := Function.update m.locks i lock } := by
  have hmono (j : Nat) (hj : (m.locks j).inUse = true) :
      (Function.update m.locks i lock j).inUse = true := by
    by_cases hji : j = i
    · simp [hji, hused]
    · simpa [hji] using hj
  intro j hj hju
  by_cases hji : j = i
  · subst hji
    simp only [Function.update_self]
    exact hi.mono hmono
  · simp only [Function.update_of_ne hji] at hju ⊢
    exact (h j hj hju).mono hmono

theorem chained_step {s s' : State Tid} (hacc : Accounting s) (h : Chained s.manager) {a : Action Tid}
    (hkeep : KeepsChains s a) (hs : step s a = some s') : Chained s'.manager := by
  cases a with
  | probe t username filename =>
    have hlt := hashFilepath_lt (filepathKey username filename) hacc.capacity_pos
    cases (probed_of_step hacc.capacity_pos hs).2 with
    | full _ => exact h
    | joined i stop used same => exact chained_write h rfl (reached_of_scan hlt stop)
    | created i stop free => exact chained_write h rfl (reached_of_scan hlt stop)
  | lock t =>
    obtain ⟨i, key, _, _, rfl⟩ := step_lock hs
    exact h
  | unlock t =>
    obtain ⟨i, key, _, rfl⟩ := step_unlock hs
    exact h
  | drop t =>
    obtain ⟨i, key, hrel, rfl⟩ := step_drop hs
    obtain ⟨hi, hused, _⟩ := hacc.referred t i key (by rw [hrel]; rfl)
    by_cases hlast : (s.manager.locks i).refCount ≤ 1
    · have hdrop : (dropRef (s.manager.locks i)).inUse = false := by
        have : (s.manager.locks i).refCount - 1 ≤ 0 := by omega
        simp [dropRef, this]
      intro j hj hju
      have hji : j ≠ i := by
        rintro rfl
        simp [hdrop] at hju
      simp only [setPhase_manager, setLock_locks, Function.update_of_ne hji] at hju ⊢
      intro d hd
      have hocc := h j hj hju d hd
      -- The freed slot lies behind `j` on the path of its key.
      have hne : slot s.manager.capacity
          (hashFilepath (s.manager.locks j).filepath s.manager.capacity) d ≠ i := by
        intro he
        have hlt := hashFilepath_lt (s.manager.locks j).filepath hacc.capacity_pos
        have hgap := gap_slot hlt (Nat.lt_trans hd (gap_lt hacc.capacity_pos j))
        rw [he] at hgap
        have hle := hkeep i key hrel hlast j hj hji hju
        simp only [setLock_capacity] at hd
        omega
      simpa [hne] using hocc
    · have hgt : ¬ (s.manager.locks i).refCount - 1 ≤ 0 := by omega
      refine chained_write h ?_ ?_
      · simpa [dropRef, hgt] using hused
      · simpa [dropRef, hgt] using h i hi hused

omit [DecidableEq Tid] in
theorem Chained.clean {s : State Tid} (h : Chained s.manager) (a : Action Tid) : NoHiddenEntry s a := by
  cases a with
  | probe t username filename => exact fun i hi hused hkey => hkey ▸ h i hi hused
  | _ => trivial

/-- Exclusion in terms of the releases alone: it holds in every run in which no release
frees a slot that another lock in use was probed past. -/
theorem mutual_exclusion_of_kept_chains (capacity : Capacity) (acts : List (Action Tid))
    (hkeep : Along step KeepsChains (start Tid capacity) acts) :
    Always step MutuallyExclusive (start Tid capacity) acts := by
  have hinv : Always step (fun s => (Accounting s ∧ UniqueKeys s) ∧ Chained s.manager)
      (start Tid capacity) acts := by
    refine hkeep.always (fun s a t h hk hs => ?_) ⟨⟨accounting_start capacity, ?_⟩, ?_⟩
    · exact ⟨⟨accounting_step h.1.1 hs, unique_step h.1.2 h.1.1 (h.2.clean a) hs⟩,
        chained_step h.1.1 h.2 hk hs⟩
    · intro i j _ _ hi
      simp [start, emptyLock] at hi
    · intro i _ hi
      simp [start, emptyLock] at hi
  exact hinv.mono fun s h => ⟨h.1.2, h.1.1.exclusive h.1.2⟩

/-- Files "u/ab" and "u/bA" have one hash. Thread 1 releases "u/ab" while thread 2 holds
"u/bA" in the next slot; thread 3 then reserves the freed slot for "u/bA". -/
def collidingRelease : List (Action Nat) :=
  [.probe 1 (ascii "u") (ascii "ab"), .lock 1, .probe 2 (ascii "u") (ascii "bA"), .lock 2,
    .unlock 1, .drop 1, .probe 3 (ascii "u") (ascii "bA"), .lock 3]

theorem two_holders_after_colliding_release :
    ¬ ∀ (capacity : Capacity) (acts : List (Action Nat)),
      Always step MutuallyExclusive (start Nat capacity) acts := by
  intro h
  have hrun : ((run step (start Nat mainCapacity) collidingRelease).map fun s => (s.phase 2, s.phase 3)) =
      some (.holding 173 (ascii "u/bA"), .holding 172 (ascii "u/bA")) := by decide +kernel
  obtain ⟨s, hs, hphase⟩ := Option.map_eq_some_iff.mp hrun
  obtain ⟨h2, h3⟩ := Prod.mk.inj hphase
  have heq := ((h mainCapacity collidingRelease).last hs).2 2 3 _ _ _ h2 h3
  cases heq

end Stash.Sync.FileLocks
