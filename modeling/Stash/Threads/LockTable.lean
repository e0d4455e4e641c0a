import Mathlib.Data.Fintype.Card
import Stash.Sync.FileLockAccounting
import Stash.Threads.WorkerThread

/-! The lock table between any number of threads: exact reference counts, paths that stay while
somebody refers to them, and room for every worker when there are no more workers than slots. -/
namespace Stash.Threads.LockTable
open Foundation Foundation.CText Foundation.LinearProbing Foundation.Runs Sync.FileLocks
variable {Tid : Type}

def usedSlots (m : FileLockManager Tid) : Finset Nat :=
  (Finset.range m.capacity).filter fun i => (m.locks i).inUse = true

/-- The thread that takes the step. -/
def actor : Action Tid → Tid
  | .probe t _ _ | .lock t | .unlock t | .drop t => t

structure Exact [Fintype Tid] (s : State Tid) : Prop where
  counted : ∀ i, (s.manager.locks i).refCount = (refs s.phase i).ncard
  inUse : ∀ i, (s.manager.locks i).inUse = true ↔ 0 < (s.manager.locks i).refCount
  path : ∀ t i key, (s.phase t).entry = some (i, key) → (s.manager.locks i).filepath = key
  few : (usedSlots s.manager).card ≤ Fintype.card Tid

def lockError (command : String) : Response :=
  failure .error (command ++ " FAILED: Could not acquire file lock\n")

/-- `file_lock_acquire` returns a lock to every thread that may call it, so that no worker comes to
the branch in which it has got none. -/
structure Available (s : State Tid) : Prop where
  acquired : ∀ t, s.phase t = .outside → ∀ username filename,
    (reserve s.manager (filepathKey username filename)).isSome = true
  worker : ∀ t, s.phase t = .outside → ∀ (calls : Calls) (server : Server) (task : Task) (command : String),
    calls.fileLock = (reserve s.manager (filepathKey task.username task.filename)).isSome →
      acquire calls server task command ≠ .error (lockError command)

variable {s s' : State Tid} [DecidableEq Tid]

/-- No path changes while somebody refers to it. -/
def KeepsPaths (s : State Tid) (a : Action Tid) : Prop :=
  ∀ s', step s a = some s' → ∀ i, (refs s.phase i).Nonempty → (refs s'.phase i).Nonempty →
    (s'.manager.locks i).filepath = (s.manager.locks i).filepath

/-- A step moves one thread, and leaves the size of the table. -/
theorem step_moves {a : Action Tid} (h : Accounting s) (hs : step s a = some s') :
    s'.manager.capacity = s.manager.capacity ∧ ∀ t, t ≠ actor a → s'.phase t = s.phase t := by
  cases a with
  | probe t username filename =>
    obtain ⟨_, hp⟩ := probed_of_step h.capacity_pos hs
    cases hp with
    | full _ => exact ⟨rfl, fun _ _ => rfl⟩
    | joined i _ _ _ => exact ⟨rfl, fun u hu => Function.update_of_ne hu _ _⟩
    | created i _ _ => exact ⟨rfl, fun u hu => Function.update_of_ne hu _ _⟩
  | lock t =>
    obtain ⟨i, key, _, _, rfl⟩ := step_lock hs
    exact ⟨rfl, fun u hu => Function.update_of_ne hu _ _⟩
  | unlock t =>
    obtain ⟨i, key, _, rfl⟩ := step_unlock hs
    exact ⟨rfl, fun u hu => Function.update_of_ne hu _ _⟩
  | drop t =>
    obtain ⟨i, key, _, rfl⟩ := step_drop hs
    exact ⟨rfl, fun u hu => Function.update_of_ne hu _ _⟩

/-- A thread that refers to a slot before and after a step has asked for it under one path. -/
theorem step_entry {a : Action Tid} (h : Accounting s) (hs : step s a = some s') {e e' : Nat × Bytes}
    (he : (s.phase (actor a)).entry = some e) (he' : (s'.phase (actor a)).entry = some e') : e = e' := by
  cases a with
  | probe t username filename =>
    obtain ⟨hout, _⟩ := probed_of_step h.capacity_pos hs
    rw [actor, hout] at he
    cases he
  | lock t =>
    obtain ⟨i, key, hreserved, _, rfl⟩ := step_lock hs
    rw [actor, hreserved] at he
    rw [actor, setPhase_phase, Function.update_self] at he'
    exact Option.some.inj (he.symm.trans he')
  | unlock t =>
    obtain ⟨i, key, hholding, rfl⟩ := step_unlock hs
    rw [actor, hholding] at he
    rw [actor, setPhase_phase, Function.update_self] at he'
    exact Option.some.inj (he.symm.trans he')
  | drop t =>
    obtain ⟨i, key, _, rfl⟩ := step_drop hs
    rw [actor, setPhase_phase, Function.update_self] at he'
    cases he'

theorem keepsPaths (h : Accounting s) (a : Action Tid) : KeepsPaths s a := by
  rintro s' hs i ⟨t, key, ht⟩ ⟨u, key', hu⟩
  have h' := accounting_step h hs
  obtain ⟨_, hother⟩ := step_moves h hs
  by_cases htact : t = actor a
  · by_cases huact : u = actor a
    · rw [htact] at ht
      rw [huact] at hu
      obtain ⟨_, rfl⟩ := Prod.mk.inj (step_entry h hs ht hu)
      rw [(h.referred _ i key ht).2.2, (h'.referred _ i key hu).2.2]
    · have hbefore := hu
      rw [hother u huact] at hbefore
      rw [(h.referred u i key' hbefore).2.2, (h'.referred u i key' hu).2.2]
  · have hbehind := ht
    rw [← hother t htact] at hbehind
    rw [(h.referred t i key ht).2.2, (h'.referred t i key hbehind).2.2]

variable [Fintype Tid]

/-- The threads that refer to a slot. -/
def referring (s : State Tid) : Finset Tid := Finset.univ.filter fun t => (s.phase t).entry.isSome = true

omit [DecidableEq Tid] in
/-- Every used slot has a thread of its own. -/
theorem card_usedSlots_le (h : Accounting s) : (usedSlots s.manager).card ≤ (referring s).card := by
  refine Finset.card_le_card_of_surjOn (fun t => ((s.phase t).entry.map Prod.fst).getD 0) ?_
  intro i hi
  obtain ⟨_, hused⟩ := Finset.mem_filter.mp hi
  have hpos := (h.used i).mp hused
  rw [h.counted i] at hpos
  obtain ⟨t, key, ht⟩ := (Set.ncard_pos (h.finite i)).mp (Int.natCast_pos.mp hpos)
  refine ⟨t, Finset.mem_filter.mpr ⟨Finset.mem_univ t, by rw [ht]; rfl⟩, ?_⟩
  simp only [ht]
  rfl

omit [DecidableEq Tid] in
theorem Exact.of_accounting (h : Accounting s) : Exact s where
  counted := h.counted
  inUse := h.used
  path t i key ht := (h.referred t i key ht).2.2
  few := (card_usedSlots_le h).trans (Finset.card_le_univ _)

omit [DecidableEq Tid] in
/-- A thread that refers to no slot leaves one free for itself. -/
theorem reserve_isSome (h : Accounting s) {t : Tid} (hout : s.phase t = .outside)
    (hcard : Fintype.card Tid ≤ s.manager.capacity) (key : Bytes) : (reserve s.manager key).isSome = true := by
  rw [reserve, Option.isSome_map]
  by_contra hnone
  have hscan := Option.not_isSome_iff_eq_none.mp hnone
  have hall : usedSlots s.manager = Finset.range s.manager.capacity := by
    refine Finset.filter_true_of_mem fun i hi => ?_
    have hstop := (scan_eq_none (hashFilepath_lt key h.capacity_pos)).mp hscan i (Finset.mem_range.mp hi)
    rw [stops, Bool.or_eq_false_iff, Bool.not_eq_false'] at hstop
    exact hstop.1
  have hle := card_usedSlots_le h
  rw [hall, Finset.card_range] at hle
  have hnot : t ∉ referring s := by
    rw [referring, Finset.mem_filter, hout]
    exact fun hmem => absurd hmem.2 (by decide)
  have hlt := Finset.card_lt_univ_of_notMem hnot
  omega

/-- The two answers of a command that gets no further differ in their texts. -/
theorem acquire_ne_lockError {calls : Calls} {server : Server} {task : Task} {command : String}
    (hlock : calls.fileLock = true) : acquire calls server task command ≠ .error (lockError command) := by
  intro herror
  unfold acquire at herror
  split at herror
  · have hmessage := congrArg Response.message (Except.error.inj herror)
    simp only [failure, lockError, ascii, String.toList_append, List.map_append] at hmessage
    exact absurd (List.append_cancel_left hmessage) (by decide)
  · rw [hlock] at herror
    cases herror

omit [DecidableEq Tid] in
theorem Available.of_accounting (h : Accounting s) (hcard : Fintype.card Tid ≤ s.manager.capacity) :
    Available s where
  acquired _ hout _ _ := reserve_isSome h hout hcard _
  worker _ hout _ _ _ _ hlock := acquire_ne_lockError (hlock.trans (reserve_isSome h hout hcard _))

/-- In every interleaving the reference counts are exact, no path changes while somebody refers to
it, and no more slots are used than there are threads; when these are no more than the slots, every
`file_lock_acquire` returns a lock. -/
theorem reference_counts_exact (capacity : Capacity) (acts : List (Action Tid)) :
    Always step Exact (start Tid capacity) acts ∧ Along step KeepsPaths (start Tid capacity) acts ∧
      (Fintype.card Tid ≤ capacity.value → Always step Available (start Tid capacity) acts) := by
  have haccounting := accounting_always capacity acts
  refine ⟨haccounting.mono fun _ => Exact.of_accounting, haccounting.along fun _ a _ h _ => keepsPaths h a,
    fun hcard => ?_⟩
  have hsized : Always step (fun s => Accounting s ∧ s.manager.capacity = capacity.value) (start Tid capacity) acts :=
    always_of_step (fun _ _ _ h hs => ⟨accounting_step h.1 hs, (step_moves h.1 hs).1.trans h.2⟩) acts
      ⟨accounting_start capacity, rfl⟩
  exact hsized.mono fun _ h => Available.of_accounting h.1 (by rw [h.2]; exact hcard)

/-- Two of the four workers are on one file, a third is on another. -/
def twoOnOneFile : List (Action (Fin 4)) :=
  [.probe 0 (ascii "alice") (ascii "report"), .probe 1 (ascii "alice") (ascii "report"), .lock 0,
    .probe 2 (ascii "bob") (ascii "report"), .lock 2, .unlock 0, .lock 1, .drop 0, .unlock 1, .drop 1]

/-- The four workers of the server and its table of 1024 locks. -/
theorem reference_counts_exact_server :
    (run step (start (Fin 4) mainCapacity) twoOnOneFile).map (fun s => s.phase 1) = some .outside ∧
      Always step Available (start (Fin 4) mainCapacity) twoOnOneFile :=
  ⟨by decide +kernel, (reference_counts_exact mainCapacity twoOnOneFile).2.2 (by decide)⟩

end Stash.Threads.LockTable
