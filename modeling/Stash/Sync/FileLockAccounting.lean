import Mathlib.Data.Set.Card
import Stash.Sync.FileLocks

/-! What every interleaving of the lock manager keeps: reference counts are the numbers
of referring threads, a referred slot keeps its key, and mutexes belong to their holders. -/
namespace Stash.Sync.FileLocks
open Foundation.CText Foundation.LinearProbing Foundation.Runs

/-- The slot that a thread refers to, with the key under which it asked for it. -/
def Phase.entry : Phase → Option (Nat × Bytes)
  | .outside => none
  | .reserved i key | .holding i key | .released i key => some (i, key)

/-- The threads that have reserved slot `i` and not yet dropped their reference. -/
def refs {Tid : Type} (phase : Tid → Phase) (i : Nat) : Set Tid :=
  {t | ∃ key, (phase t).entry = some (i, key)}

structure Accounting {Tid : Type} (s : State Tid) : Prop where
  capacity_pos : 0 < s.manager.capacity
  referred : ∀ t i key, (s.phase t).entry = some (i, key) →
    i < s.manager.capacity ∧ (s.manager.locks i).inUse = true ∧ (s.manager.locks i).filepath = key
  finite : ∀ i, (refs s.phase i).Finite
  counted : ∀ i, (s.manager.locks i).refCount = (refs s.phase i).ncard
  used : ∀ i, (s.manager.locks i).inUse = true ↔ 0 < (s.manager.locks i).refCount
  owned : ∀ t i, s.manager.mtx i = some t ↔ ∃ key, s.phase t = .holding i key

variable {Tid : Type} [DecidableEq Tid]

omit [DecidableEq Tid] in
theorem accounting_start (capacity : Capacity) : Accounting (start Tid capacity) where
  capacity_pos := capacity.pos
  referred := by simp [start, Phase.entry]
  finite := by simp [start, refs, Phase.entry]
  counted := by simp [start, refs, Phase.entry, emptyLock]
  used := by simp [start, emptyLock]
  owned := by simp [start]

private theorem refs_moved {phase : Tid → Phase} {t : Tid} {p : Phase}
    (h : p.entry = (phase t).entry) (i : Nat) : refs (Function.update phase t p) i = refs phase i := by
  ext u
  by_cases hu : u = t
  · subst hu
    simp [refs, h]
  · simp [refs, hu]

private theorem refs_entered {phase : Tid → Phase} {t : Tid} {p : Phase} {i : Nat} {key : Bytes}
    (hp : p.entry = some (i, key)) (j : Nat) (h : (phase t).entry = none) :
    refs (Function.update phase t p) j = if j = i then insert t (refs phase j) else refs phase j := by
  ext u
  by_cases hu : u = t
  · subst hu
    by_cases hj : j = i
    · simp [refs, hp, hj]
    · simp [refs, hp, hj, h, Ne.symm hj]
  · by_cases hj : j = i <;> simp [refs, hu, hj]

private theorem refs_left {phase : Tid → Phase} {t : Tid} {i : Nat} {key : Bytes}
    (h : (phase t).entry = some (i, key)) (j : Nat) :
    refs (Function.update phase t .outside) j = if j = i then refs phase j \ {t} else refs phase j := by
  ext u
  by_cases hu : u = t
  · subst hu
    by_cases hj : j = i
    · simp [refs, Phase.entry, hj]
    · have hnot : u ∉ refs phase j := by simp [refs, h, Ne.symm hj]
      simp only [hj, if_false, hnot, iff_false]
      simp [refs, Phase.entry]
  · by_cases hj : j = i <;> simp [refs, hu, hj]

/-- A probe finds the table full, or refers to the lock of the file or to a free slot. -/
inductive Probed (s : State Tid) (t : Tid) (key : Bytes) : State Tid → Prop where
  | full (stop : scan s.manager.capacity (stops s.manager.locks key) s.manager.capacity
        (hashFilepath key s.manager.capacity) = none) : Probed s t key s
  | joined (i : Nat)
      (stop : scan s.manager.capacity (stops s.manager.locks key) s.manager.capacity
        (hashFilepath key s.manager.capacity) = some i)
      (used : (s.manager.locks i).inUse = true) (same : (s.manager.locks i).filepath = key) :
      Probed s t key ((s.setLock i ⟨key, (s.manager.locks i).refCount + 1, true⟩).setPhase t (.reserved i key))
  | created (i : Nat)
      (stop : scan s.manager.capacity (stops s.manager.locks key) s.manager.capacity
        (hashFilepath key s.manager.capacity) = some i)
      (free : (s.manager.locks i).inUse = false) :
      Probed s t key ((s.setLock i ⟨key, 1, true⟩).setPhase t (.reserved i key))

theorem probed_of_step {s s' : State Tid} {t : Tid} {username filename : Bytes}
    (hpos : 0 < s.manager.capacity) (h : step s (.probe t username filename) = some s') :
    s.phase t = .outside ∧ Probed s t (filepathKey username filename) s' := by
  simp only [step] at h
  split at h
  · rename_i hout
    refine ⟨hout, ?_⟩
    cases hscan : scan s.manager.capacity (stops s.manager.locks (filepathKey username filename))
        s.manager.capacity (hashFilepath (filepathKey username filename) s.manager.capacity) with
    | none =>
      simp only [reserve, hscan, Option.map_none] at h
      obtain rfl := Option.some.inj h
      exact .full hscan
    | some i =>
      cases hused : (s.manager.locks i).inUse with
      | true =>
        have hstop := ((scan_eq_some (hashFilepath_lt _ hpos)).mp hscan).2.1
        have hsame : (s.manager.locks i).filepath = filepathKey username filename := by
          simpa [stops, hused] using hstop
        simp only [reserve, hscan, Option.map_some, hused, if_true, hsame] at h
        obtain rfl := Option.some.inj h
        exact .joined i hscan hused hsame
      | false =>
        simp only [reserve, hscan, Option.map_some, hused, Bool.false_eq_true, if_false] at h
        obtain rfl := Option.some.inj h
        exact .created i hscan hused
  · cases h

theorem step_lock {s s' : State Tid} {t : Tid} (h : step s (.lock t) = some s') :
    ∃ i key, s.phase t = .reserved i key ∧ s.manager.mtx i = none ∧
      s' = (s.setMtx i (some t)).setPhase t (.holding i key) := by
  simp only [step] at h
  split at h
  · rename_i i key hp
    split at h
    · rename_i hm
      exact ⟨i, key, hp, hm, (Option.some.inj h).symm⟩
    · cases h
  · cases h

theorem step_unlock {s s' : State Tid} {t : Tid} (h : step s (.unlock t) = some s') :
    ∃ i key, s.phase t = .holding i key ∧ s' = (s.setMtx i none).setPhase t (.released i key) := by
  simp only [step] at h
  split at h
  · rename_i i key hp
    exact ⟨i, key, hp, (Option.some.inj h).symm⟩
  · cases h

theorem step_drop {s s' : State Tid} {t : Tid} (h : step s (.drop t) = some s') :
    ∃ i key, s.phase t = .released i key ∧
      s' = (s.setLock i (dropRef (s.manager.locks i))).setPhase t .outside := by
  simp only [step] at h
  split at h
  · rename_i i key hp
    exact ⟨i, key, hp, (Option.some.inj h).symm⟩
  · cases h

omit [DecidableEq Tid] in
/-- A free slot has no reference left. -/
theorem Accounting.free {s : State Tid} (h : Accounting s) {i : Nat}
    (hi : (s.manager.locks i).inUse = false) :
    (s.manager.locks i).refCount = 0 ∧ refs s.phase i = ∅ := by
  have hc := h.counted i
  have hu := h.used i
  rw [hi] at hu
  have hz : (refs s.phase i).ncard = 0 := by
    simp only [Bool.false_eq_true, false_iff] at hu
    omega
  exact ⟨by omega, (Set.ncard_eq_zero (h.finite i)).mp hz⟩

private theorem accounting_refer {s : State Tid} (h : Accounting s) {t : Tid} {i : Nat} {key : Bytes}
    (hout : s.phase t = .outside) (hi : i < s.manager.capacity)
    (hkey : ∀ u k, (s.phase u).entry = some (i, k) → k = key) :
    Accounting ((s.setLock i ⟨key, (s.manager.locks i).refCount + 1, true⟩).setPhase t (.reserved i key)) := by
  have hent : (s.phase t).entry = none := by rw [hout]; rfl
  have hrefs := refs_entered (p := .reserved i key) rfl (h := hent)
  refine ⟨h.capacity_pos, ?_, ?_, ?_, ?_, ?_⟩
  · intro u j k hu
    simp only [setPhase_phase, setLock_phase] at hu
    by_cases hut : u = t
    · subst hut
      simp only [Function.update_self, Phase.entry, Option.some.injEq, Prod.mk.injEq] at hu
      obtain ⟨rfl, rfl⟩ := hu
      simpa using hi
    · rw [Function.update_of_ne hut] at hu
      by_cases hj : j = i
      · subst hj
        simpa using ⟨hi, (hkey u k hu).symm⟩
      · simpa [hj] using h.referred u j k hu
  · intro j
    simp only [setPhase_phase, setLock_phase, hrefs j]
    split
    · exact (h.finite j).insert t
    · exact h.finite j
  · intro j
    simp only [setPhase_phase, setLock_phase, setPhase_manager, setLock_locks, hrefs j]
    by_cases hj : j = i
    · subst hj
      have hnot : t ∉ refs s.phase j := by simp [refs, hent]
      simp [Set.ncard_insert_of_notMem hnot (h.finite j), h.counted j]
    · simp [hj, h.counted j]
  · intro j
    by_cases hj : j = i
    · subst hj
      have := h.counted j
      simp
      omega
    · simpa [hj] using h.used j
  · intro u j
    simp only [setPhase_manager, setLock_mtx, setPhase_phase, setLock_phase, h.owned u j]
    by_cases hut : u = t
    · subst hut
      simp [hout]
    · rw [Function.update_of_ne hut]

private theorem accounting_probed {s s' : State Tid} (h : Accounting s) {t : Tid} {key : Bytes}
    (hout : s.phase t = .outside) (hp : Probed s t key s') : Accounting s' := by
  have hlt := hashFilepath_lt key h.capacity_pos
  cases hp with
  | full _ => exact h
  | joined i stop used same =>
    refine accounting_refer h hout ((scan_eq_some hlt).mp stop).1 fun u k hu => ?_
    rw [← (h.referred u i k hu).2.2, same]
  | created i stop free =>
    obtain ⟨hzero, hempty⟩ := h.free free
    have hrefer := accounting_refer h hout ((scan_eq_some hlt).mp stop).1 fun u (k : Bytes) hu =>
        show k = key by
      have hmem : u ∈ refs s.phase i := ⟨k, hu⟩
      rw [hempty] at hmem
      exact hmem.elim
    rwa [hzero] at hrefer

private theorem accounting_moved {s : State Tid} (h : Accounting s) {t : Tid} {p : Phase}
    {mtx : Nat → Option Tid} (hp : p.entry = (s.phase t).entry)
    (hown : ∀ u i, mtx i = some u ↔ ∃ key, Function.update s.phase t p u = .holding i key) :
    Accounting ⟨{ s.manager with mtx := mtx }, Function.update s.phase t p⟩ := by
  refine ⟨h.capacity_pos, ?_, ?_, ?_, h.used, hown⟩
  · intro u i key hu
    by_cases hut : u = t
    · subst hut
      exact h.referred u i key (by simpa [hp] using hu)
    · exact h.referred u i key (by simpa [hut] using hu)
  · intro i
    simpa only [refs_moved hp] using h.finite i
  · intro i
    simpa only [refs_moved hp] using h.counted i

private theorem owned_lock {s : State Tid} (h : Accounting s) {t : Tid} {i : Nat} {key : Bytes}
    (hres : s.phase t = .reserved i key) (hfree : s.manager.mtx i = none) (u : Tid) (j : Nat) :
    Function.update s.manager.mtx i (some t) j = some u ↔
      ∃ k, Function.update s.phase t (.holding i key) u = .holding j k := by
  have hold := h.owned u j
  by_cases hj : j = i
  · subst hj
    rw [hfree] at hold
    by_cases hut : u = t
    · subst hut
      simp
    · rw [Function.update_of_ne hut, ← hold]
      simpa using Ne.symm hut
  · rw [Function.update_of_ne hj]
    by_cases hut : u = t
    · subst hut
      rw [hold, hres]
      simp [Ne.symm hj]
    · rw [Function.update_of_ne hut, hold]

private theorem owned_unlock {s : State Tid} (h : Accounting s) {t : Tid} {i : Nat} {key : Bytes}
    (hhold : s.phase t = .holding i key) (u : Tid) (j : Nat) :
    Function.update s.manager.mtx i none j = some u ↔
      ∃ k, Function.update s.phase t (.released i key) u = .holding j k := by
  have hold := h.owned u j
  have hmine := (h.owned t i).mpr ⟨key, hhold⟩
  by_cases hut : u = t
  · subst hut
    by_cases hj : j = i
    · simp [hj]
    · rw [Function.update_of_ne hj, hold, hhold]
      simp [Ne.symm hj]
  · rw [Function.update_of_ne hut, ← hold]
    by_cases hj : j = i
    · subst hj
      rw [hmine]
      simpa using Ne.symm hut
    · rw [Function.update_of_ne hj]

private theorem accounting_drop {s : State Tid} (h : Accounting s) {t : Tid} {i : Nat} {key : Bytes}
    (hrel : s.phase t = .released i key) :
    Accounting ((s.setLock i (dropRef (s.manager.locks i))).setPhase t .outside) := by
  have hent : (s.phase t).entry = some (i, key) := by rw [hrel]; rfl
  have hrefs := refs_left hent
  have hmem : t ∈ refs s.phase i := ⟨key, hent⟩
  have hcard := Set.ncard_sdiff_singleton_add_one hmem (h.finite i)
  have hcount := h.counted i
  refine ⟨h.capacity_pos, ?_, ?_, ?_, ?_, ?_⟩
  · intro u j k hu
    simp only [setPhase_phase, setLock_phase] at hu
    by_cases hut : u = t
    · subst hut
      simp [Phase.entry] at hu
    · rw [Function.update_of_ne hut] at hu
      obtain ⟨hj, hused, hkey⟩ := h.referred u j k hu
      refine ⟨hj, ?_⟩
      by_cases hji : j = i
      · subst hji
        -- Another thread refers to the slot, so the count stays positive.
        have hu' : u ∈ refs s.phase j \ {t} := ⟨⟨k, hu⟩, hut⟩
        have hpos := Set.ncard_pos (s := refs s.phase j \ {t}) ((h.finite j).sdiff) |>.mpr ⟨u, hu'⟩
        have hgt : ¬ (s.manager.locks j).refCount - 1 ≤ 0 := by omega
        simpa [dropRef, hgt] using ⟨hused, hkey⟩
      · simpa [hji] using ⟨hused, hkey⟩
  · intro j
    simp only [setPhase_phase, setLock_phase, hrefs j]
    split
    · exact (h.finite j).sdiff
    · exact h.finite j
  · intro j
    simp only [setPhase_phase, setLock_phase, setPhase_manager, setLock_locks, hrefs j]
    by_cases hj : j = i
    · subst hj
      have hdrop : (dropRef (s.manager.locks j)).refCount = (s.manager.locks j).refCount - 1 := by
        unfold dropRef; split <;> rfl
      simp only [Function.update_self, hdrop, if_true]
      omega
    · simp [hj, h.counted j]
  · intro j
    by_cases hj : j = i
    · subst hj
      have hused := (h.referred t j key hent).2.1
      simp only [setPhase_manager, setLock_locks, Function.update_self, dropRef]
      split
      · simp; omega
      · simp [hused]; omega
    · simpa [hj] using h.used j
  · intro u j
    simp only [setPhase_manager, setLock_mtx, setPhase_phase, setLock_phase, h.owned u j]
    by_cases hut : u = t
    · subst hut
      simp [hrel]
    · rw [Function.update_of_ne hut]

/-- Every step of every thread keeps the accounts, whatever the order of the steps. -/
theorem accounting_step {s s' : State Tid} (h : Accounting s) {a : Action Tid}
    (hs : step s a = some s') : Accounting s' := by
  cases a with
  | probe t username filename =>
    obtain ⟨hout, hp⟩ := probed_of_step h.capacity_pos hs
    exact accounting_probed h hout hp
  | lock t =>
    obtain ⟨i, key, hres, hfree, rfl⟩ := step_lock hs
    exact accounting_moved h (by rw [hres]; rfl) (owned_lock h hres hfree)
  | unlock t =>
    obtain ⟨i, key, hhold, rfl⟩ := step_unlock hs
    exact accounting_moved h (by rw [hhold]; rfl) (owned_unlock h hhold)
  | drop t =>
    obtain ⟨i, key, hrel, rfl⟩ := step_drop hs
    exact accounting_drop h hrel

/-- The accounts hold in every state of every interleaving. -/
theorem accounting_always (capacity : Capacity) (acts : List (Action Tid)) :
    Always step Accounting (start Tid capacity) acts :=
  always_of_step (fun _ _ _ h hs => accounting_step h hs) acts (accounting_start capacity)

end Stash.Sync.FileLocks
