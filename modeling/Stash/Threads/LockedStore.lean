import Stash.Sync.FileLockExclusion
import Stash.Threads.ConcurrentStore
import Stash.Threads.LockTable

/-! Workers on the files of many users behind the lock manager. As long as it excludes, they are
workers on files each of which has a lock of its own. -/
namespace Stash.Threads
open Foundation.CText Foundation.Paths Foundation.FileTree Foundation.Runs Sync.FileLocks LockTable Auth

/-- The lock manager, for which the tasks are threads, and the files without locks. -/
structure LockedStore where
  locks : State Nat
  disk : Bytes → Bytes → Disk
  phase : Nat → TaskPhase
  answered : List Nat

/-- The steps of the task `i`. -/
inductive Turn where
  /-- The critical section of `file_lock_acquire`. -/
  | probe (i : Nat)
  /-- `file_lock_acquire` gets the mutex of the slot. -/
  | lock (i : Nat)
  /-- A step on the file. With the last one that holds the lock, `file_lock_release` unlocks it. -/
  | work (i : Nat)
  /-- The critical section of `file_lock_release`. -/
  | drop (i : Nat)

def startLocked (capacity : Capacity) (store : Store) : LockedStore :=
  ⟨Sync.FileLocks.start Nat capacity, fun username filename => (store username filename).disk, fun _ => .queued, []⟩

/-- The first touch of the file, or a step behind it. -/
def FileTask.next (t : FileTask) (d : Disk) (p : TaskPhase) : Option (Disk × TaskPhase) :=
  if p = .locked then some (t.enter d) else t.proceed d p

/-- The task `i` comes to the phase `p` and leaves its file as `d`. -/
def LockedStore.move (s : LockedStore) (i : Nat) (r : StoreTask) (d : Disk) (p : TaskPhase) (locks : State Nat) :
    LockedStore where
  locks := locks
  disk := fun username filename =>
    if username = r.username.text ∧ filename = r.filename.text then d else s.disk username filename
  phase := Function.update s.phase i p
  answered := if p.response.isSome then s.answered ++ [i] else s.answered

/-- The next turn of a task. A probe that finds the table full is left out. -/
def lockedStep (tasks : List StoreTask) (s : LockedStore) : Turn → Option LockedStore
  | .probe i => tasks[i]?.bind fun r =>
    if s.phase i = .queued then
      (Sync.FileLocks.step s.locks (.probe i r.username.text r.filename.text)).bind fun locks =>
        if locks.phase i = .outside then none else some { s with locks := locks }
    else none
  | .lock i => tasks[i]?.bind fun r =>
    (Sync.FileLocks.step s.locks (.lock i)).map fun locks =>
      s.move i r (s.disk r.username.text r.filename.text) .locked locks
  | .work i => tasks[i]?.bind fun r =>
    (r.task.next (s.disk r.username.text r.filename.text) (s.phase i)).bind fun e =>
      (if (s.phase i).holds && !e.2.holds then Sync.FileLocks.step s.locks (.unlock i) else some s.locks).map fun locks =>
        s.move i r e.1 e.2 locks
  | .drop i => (Sync.FileLocks.step s.locks (.drop i)).map fun locks => { s with locks := locks }

/-- The task on this file that has its lock. -/
def LockedStore.holder (tasks : List StoreTask) (s : LockedStore) (username filename : Bytes) : Option Nat :=
  (List.range tasks.length).find? fun i => onFile tasks username filename i && (s.phase i).holds

/-- The files, each with a lock of its own. -/
def LockedStore.shared (tasks : List StoreTask) (s : LockedStore) : SharedStore where
  file username filename :=
    { disk := s.disk username filename
      lock := s.holder tasks username filename
      phase := fun i => if onFile tasks username filename i then s.phase i else .queued }
  answered := s.answered

/-- A probe does not miss the lock of its file, and a task first touches its file when no failed
upload is about to remove it. -/
def Undisturbed (tasks : List StoreTask) (s : LockedStore) : Turn → Prop
  | .probe i => ∀ r ∈ tasks[i]?, NoHiddenEntry s.locks (.probe i r.username.text r.filename.text)
  | .work i => Calm tasks (s.shared tasks) i
  | _ => True

/-- A task that has its file has the lock of the file, and one that waits for a lock waits for
that of its file. -/
structure Guarded (tasks : List StoreTask) (s : LockedStore) : Prop where
  accounting : Accounting s.locks
  unique : UniqueKeys s.locks
  held : ∀ i, (s.phase i).holds = true → ∃ r ∈ tasks[i]?, ∃ slot,
    s.locks.phase i = .holding slot (filepathKey r.username.text r.filename.text)
  reserved : ∀ i slot key, s.locks.phase i = .reserved slot key → s.phase i = .queued ∧
    ∃ r ∈ tasks[i]?, key = filepathKey r.username.text r.filename.text

section
variable {cwd : Path} {member : Bytes → Prop} {server : Server} {tasks : List StoreTask} {s s' : LockedStore}
  {r : StoreTask} {t : FileTask} {d d' : Disk} {p p' : TaskPhase} {locks : State Nat} {turn : Turn} {i j : Nat}
  {username filename : Bytes}

@[simp] theorem move_phase : (s.move i r d p locks).phase = Function.update s.phase i p := rfl

theorem move_disk_self : (s.move i r d p locks).disk r.username.text r.filename.text = d := if_pos ⟨rfl, rfl⟩

theorem move_disk_of_ne (hne : ¬ (username = r.username.text ∧ filename = r.filename.text)) :
    (s.move i r d p locks).disk username filename = s.disk username filename := if_neg hne

theorem enter_holds (t : FileTask) (d : Disk) : (t.enter d).2.holds = true := by
  cases t with
  | upload payload result => rfl
  | download =>
    simp only [FileTask.enter]
    split
    · rfl
    · rfl
  | delete =>
    simp only [FileTask.enter]
    split
    · rfl
    · rfl

theorem next_queued (t : FileTask) (d : Disk) : t.next d .queued = none := by
  cases t <;> rfl

/-- Only a task that has the lock goes on to a phase that has it. -/
theorem next_holds (h : t.next d p = some (d', p')) (hp' : p'.holds = true) : p.holds = true := by
  by_cases hp : p = .locked
  · rw [hp]
    rfl
  · rw [FileTask.next, if_neg hp] at h
    exact proceed_holds h hp'

/-- What a turn can be. -/
inductive Turned (tasks : List StoreTask) (s : LockedStore) : Turn → LockedStore → Prop where
  | probe {i : Nat} {r : StoreTask} {locks : State Nat} (hr : tasks[i]? = some r) (hphase : s.phase i = .queued)
      (hlocks : Sync.FileLocks.step s.locks (.probe i r.username.text r.filename.text) = some locks) :
      Turned tasks s (.probe i) { s with locks := locks }
  | lock {i : Nat} {r : StoreTask} {locks : State Nat} (hr : tasks[i]? = some r)
      (hlocks : Sync.FileLocks.step s.locks (.lock i) = some locks) :
      Turned tasks s (.lock i) (s.move i r (s.disk r.username.text r.filename.text) .locked locks)
  | work {i : Nat} {r : StoreTask} {d : Disk} {p : TaskPhase} {locks : State Nat} (hr : tasks[i]? = some r)
      (hnext : r.task.next (s.disk r.username.text r.filename.text) (s.phase i) = some (d, p))
      (hlocks : (if (s.phase i).holds && !p.holds then Sync.FileLocks.step s.locks (.unlock i) else some s.locks) =
        some locks) :
      Turned tasks s (.work i) (s.move i r d p locks)
  | drop {i : Nat} {locks : State Nat} (hlocks : Sync.FileLocks.step s.locks (.drop i) = some locks) :
      Turned tasks s (.drop i) { s with locks := locks }

theorem turned_of_step (h : lockedStep tasks s turn = some s') : Turned tasks s turn s' := by
  cases turn with
  | probe i =>
    obtain ⟨r, hr, h⟩ := Option.bind_eq_some_iff.mp h
    obtain ⟨hphase, h⟩ := Option.ite_none_right_eq_some.mp h
    obtain ⟨locks, hlocks, h⟩ := Option.bind_eq_some_iff.mp h
    obtain ⟨_, h⟩ := Option.ite_none_left_eq_some.mp h
    obtain rfl := Option.some.inj h
    exact .probe hr hphase hlocks
  | lock i =>
    obtain ⟨r, hr, h⟩ := Option.bind_eq_some_iff.mp h
    obtain ⟨locks, hlocks, rfl⟩ := Option.map_eq_some_iff.mp h
    exact .lock hr hlocks
  | work i =>
    obtain ⟨r, hr, h⟩ := Option.bind_eq_some_iff.mp h
    obtain ⟨⟨d, p⟩, hnext, h⟩ := Option.bind_eq_some_iff.mp h
    obtain ⟨locks, hlocks, rfl⟩ := Option.map_eq_some_iff.mp h
    exact .work hr hnext hlocks
  | drop i =>
    obtain ⟨locks, hlocks, rfl⟩ := Option.map_eq_some_iff.mp h
    exact .drop hlocks

theorem guarded_start (capacity : Capacity) (store : Store) : Guarded tasks (startLocked capacity store) where
  accounting := accounting_start capacity
  unique i j _ _ hi := by simp [startLocked, Sync.FileLocks.start, emptyLock] at hi
  held i hi := by cases hi
  reserved i slot key hi := by cases hi

/-- Two tasks that have one file are one task. -/
theorem Guarded.exclusive (h : Guarded tasks s) (hi : onFile tasks username filename i = true)
    (hj : onFile tasks username filename j = true) (hip : (s.phase i).holds = true) (hjp : (s.phase j).holds = true) :
    i = j := by
  obtain ⟨r, hr, hslot⟩ := onFile_eq_true.mp hi
  obtain ⟨r', hr', hslot'⟩ := onFile_eq_true.mp hj
  obtain ⟨q, hq, slot, hheld⟩ := h.held i hip
  obtain ⟨q', hq', slot', hheld'⟩ := h.held j hjp
  obtain rfl := Option.mem_unique hr hq
  obtain rfl := Option.mem_unique hr' hq'
  rw [hslot.1, hslot.2] at hheld
  rw [hslot'.1, hslot'.2] at hheld'
  exact h.accounting.exclusive h.unique i j slot slot' _ hheld hheld'

theorem Guarded.holder_eq_some (h : Guarded tasks s) : s.holder tasks username filename = some i ↔
    onFile tasks username filename i = true ∧ (s.phase i).holds = true := by
  have hsound {j : Nat} (hj : s.holder tasks username filename = some j) :
      onFile tasks username filename j = true ∧ (s.phase j).holds = true := by
    simpa using List.find?_some hj
  refine ⟨hsound, fun ⟨hi, hip⟩ => ?_⟩
  obtain ⟨r, hr, _⟩ := onFile_eq_true.mp hi
  have hsome : (s.holder tasks username filename).isSome :=
    List.find?_isSome.mpr ⟨i, List.mem_range.mpr (List.getElem?_eq_some_iff.mp hr).1, by simp [hi, hip]⟩
  obtain ⟨j, hj⟩ := Option.isSome_iff_exists.mp hsome
  obtain ⟨hjf, hjp⟩ := hsound hj
  rw [hj, h.exclusive hi hjf hip hjp]

/-- Only the actor of a step of the lock manager has to be looked at. -/
theorem Guarded.acted (h : Guarded tasks s) (later : LockedStore) {a : Action Nat}
    (hlocks : Sync.FileLocks.step s.locks a = some later.locks)
    (hclean : NoHiddenEntry s.locks a) (hphase : ∀ j, j ≠ actor a → later.phase j = s.phase j)
    (hheld : (later.phase (actor a)).holds = true → ∃ r ∈ tasks[actor a]?, ∃ slot,
      later.locks.phase (actor a) = .holding slot (filepathKey r.username.text r.filename.text))
    (hreserved : ∀ slot key, later.locks.phase (actor a) = .reserved slot key → later.phase (actor a) = .queued ∧
      ∃ r ∈ tasks[actor a]?, key = filepathKey r.username.text r.filename.text) : Guarded tasks later := by
  obtain ⟨_, hothers⟩ := LockTable.step_moves h.accounting hlocks
  refine ⟨accounting_step h.accounting hlocks, unique_step h.unique h.accounting hclean hlocks, fun j hj => ?_,
    fun j slot key hj => ?_⟩
  · by_cases hja : j = actor a
    · subst hja
      exact hheld hj
    · rw [hothers j hja]
      exact h.held j (hphase j hja ▸ hj)
  · by_cases hja : j = actor a
    · subst hja
      exact hreserved slot key hj
    · rw [hothers j hja] at hj
      rw [hphase j hja]
      exact h.reserved j slot key hj

/-- A task that neither takes nor gives up the lock goes on. -/
theorem Guarded.worked (h : Guarded tasks s) (hr : tasks[i]? = some r)
    (hnext : r.task.next (s.disk r.username.text r.filename.text) (s.phase i) = some (d, p)) :
    Guarded tasks (s.move i r d p s.locks) := by
  refine ⟨h.accounting, h.unique, fun j hj => ?_, fun j slot key hj => ?_⟩
  · change (Function.update s.phase i p j).holds = true at hj
    by_cases hji : j = i
    · subst hji
      rw [Function.update_self] at hj
      exact h.held j (next_holds hnext hj)
    · rw [Function.update_of_ne hji] at hj
      exact h.held j hj
  · obtain ⟨hqueued, hkey⟩ := h.reserved j slot key hj
    have hji : j ≠ i := by
      rintro rfl
      rw [hqueued, next_queued] at hnext
      cases hnext
    exact ⟨(Function.update_of_ne hji _ _).trans hqueued, hkey⟩

theorem guarded_step (h : Guarded tasks s) (hsafe : Undisturbed tasks s turn) (hturned : Turned tasks s turn s') :
    Guarded tasks s' := by
  cases hturned with
  | @probe i r locks hr hphase hlocks =>
    refine h.acted { s with locks := locks } hlocks (hsafe r hr) (fun _ _ => rfl) (fun hheld => ?_) fun slot key hkey => ?_
    · change (s.phase i).holds = true at hheld
      rw [hphase] at hheld
      cases hheld
    · refine ⟨hphase, r, hr, ?_⟩
      obtain ⟨hout, hprobed⟩ := probed_of_step h.accounting.capacity_pos hlocks
      change locks.phase i = .reserved slot key at hkey
      cases hprobed with
      | full _ =>
        rw [hout] at hkey
        cases hkey
      | joined _ _ _ _ =>
        rw [setPhase_phase, Function.update_self] at hkey
        cases hkey
        rfl
      | created _ _ _ =>
        rw [setPhase_phase, Function.update_self] at hkey
        cases hkey
        rfl
  | @lock i r locks hr hlocks =>
    obtain ⟨slot, key, hreserved, _, rfl⟩ := step_lock hlocks
    obtain ⟨_, q, hq, rfl⟩ := h.reserved i slot key hreserved
    refine h.acted (s.move i r _ _ _) hlocks trivial (fun j hj => Function.update_of_ne hj _ _)
      (fun _ => ⟨q, hq, slot, ?_⟩) fun slot' key' hkey => ?_
    · exact Function.update_self _ _ _
    · change Function.update _ i _ i = _ at hkey
      rw [Function.update_self] at hkey
      cases hkey
  | @work i r d p locks hr hnext hlocks =>
    split at hlocks
    · rename_i hreleases
      obtain ⟨hholds, hfree⟩ := Bool.and_eq_true_iff.mp hreleases
      obtain ⟨slot, key, _, rfl⟩ := step_unlock hlocks
      refine h.acted (s.move i r d p _) hlocks trivial (fun j hj => Function.update_of_ne hj _ _) (fun hheld => ?_)
        fun slot' key' hkey => ?_
      · change (Function.update s.phase i p i).holds = true at hheld
        rw [Function.update_self] at hheld
        simp [hheld] at hfree
      · change Function.update _ i _ i = _ at hkey
        rw [Function.update_self] at hkey
        cases hkey
    · obtain rfl := Option.some.inj hlocks
      exact h.worked hr hnext
  | @drop i locks hlocks =>
    obtain ⟨slot, key, hreleased, rfl⟩ := step_drop hlocks
    refine h.acted { s with locks := _ } hlocks trivial (fun _ _ => rfl) (fun hheld => ?_) fun slot' key' hkey => ?_
    · obtain ⟨_, _, slot', hholding⟩ := h.held i hheld
      rw [hreleased] at hholding
      cases hholding
    · change Function.update _ i _ i = _ at hkey
      rw [Function.update_self] at hkey
      cases hkey

theorem holder_apart (hr : tasks[i]? = some r) (hne : ¬ (username = r.username.text ∧ filename = r.filename.text)) :
    (s.move i r d p locks).holder tasks username filename = s.holder tasks username filename := by
  unfold LockedStore.holder
  congr 1
  funext j
  by_cases hji : j = i
  · rw [hji, onFile_other hr hne]
    rfl
  · simp [LockedStore.move, Function.update_of_ne hji]

/-- Where a task moves, its file alone is another one. -/
theorem shared_move (hr : tasks[i]? = some r) : (s.move i r d p locks).shared tasks =
    { file := fun username filename =>
        if username = r.username.text ∧ filename = r.filename.text then
          { ((s.shared tasks).file r.username.text r.filename.text).move i p with
            disk := d, lock := (s.move i r d p locks).holder tasks r.username.text r.filename.text }
        else (s.shared tasks).file username filename
      answered := if p.response.isSome then s.answered ++ [i] else s.answered } := by
  have hfile (username filename : Bytes) : ((s.move i r d p locks).shared tasks).file username filename =
      if username = r.username.text ∧ filename = r.filename.text then
        { ((s.shared tasks).file r.username.text r.filename.text).move i p with
          disk := d, lock := (s.move i r d p locks).holder tasks r.username.text r.filename.text }
      else (s.shared tasks).file username filename := by
    split
    · rename_i hkey
      obtain ⟨rfl, rfl⟩ := hkey
      have hphase :
          (fun j => if onFile tasks r.username.text r.filename.text j then Function.update s.phase i p j else .queued) =
            Function.update (fun j => if onFile tasks r.username.text r.filename.text j then s.phase j else .queued) i p := by
        funext j
        by_cases hji : j = i
        · subst hji
          rw [Function.update_self, Function.update_self, if_pos (onFile_self hr)]
        · rw [Function.update_of_ne hji, Function.update_of_ne hji]
      simp only [LockedStore.shared, SharedFile.move, move_phase, move_disk_self, hphase]
    · rename_i hne
      have hphase : (fun j => if onFile tasks username filename j then Function.update s.phase i p j else .queued) =
          fun j => if onFile tasks username filename j then s.phase j else .queued := by
        funext j
        by_cases hji : j = i
        · rw [hji, onFile_other hr hne]
          rfl
        · rw [Function.update_of_ne hji]
      simp only [LockedStore.shared, holder_apart hr hne, move_phase, move_disk_of_ne hne, hphase]
  rw [← funext fun username => funext (hfile username)]
  rfl

/-- A task that moves as it does on a file with its own lock moves so among all files. -/
theorem storeStep_move (hr : tasks[i]? = some r)
    (hstep : step (tasks.map StoreTask.task) ((s.shared tasks).file r.username.text r.filename.text) i =
      some { ((s.shared tasks).file r.username.text r.filename.text).move i p with
        disk := d, lock := (s.move i r d p locks).holder tasks r.username.text r.filename.text }) :
    storeStep tasks (s.shared tasks) i = some ((s.move i r d p locks).shared tasks) := by
  rw [shared_move hr, storeStep]
  simp only [hr, hstep, Option.map_some, SharedFile.move, Function.update_self]
  rfl

theorem shared_phase (hr : tasks[i]? = some r) :
    ((s.shared tasks).file r.username.text r.filename.text).phase i = s.phase i := if_pos (onFile_self hr)

theorem shared_lock (h : Guarded tasks s) (h' : Guarded tasks (s.move i r d .locked locks)) (hr : tasks[i]? = some r)
    (hd : d = s.disk r.username.text r.filename.text) (hphase : s.phase i = .queued) :
    storeStep tasks (s.shared tasks) i = some ((s.move i r d .locked locks).shared tasks) := by
  subst hd
  set s' := s.move i r (s.disk r.username.text r.filename.text) .locked locks with hs'
  have hlocked : (s'.phase i).holds = true := by
    rw [hs', move_phase, Function.update_self]
    rfl
  -- A holder beside this task would be a second one behind it.
  have hfree : ((s.shared tasks).file r.username.text r.filename.text).lock = none := by
    refine Option.eq_none_iff_forall_not_mem.mpr fun j hj => ?_
    obtain ⟨hjf, hjp⟩ := h.holder_eq_some.mp hj
    have hji : j ≠ i := by
      rintro rfl
      rw [hphase] at hjp
      cases hjp
    have hstill : (s'.phase j).holds = true := by
      rw [hs', move_phase, Function.update_of_ne hji]
      exact hjp
    exact hji (h'.exclusive hjf (onFile_self hr) hstill hlocked)
  refine storeStep_move hr ?_
  rw [h'.holder_eq_some.mpr ⟨onFile_self hr, hlocked⟩]
  have ht : (tasks.map StoreTask.task)[i]? = some r.task := by simp [hr]
  have hqueued := (shared_phase (s := s) hr).trans hphase
  simp only [step, ht, hqueued]
  rw [if_pos hfree]
  rfl

theorem step_next {tasks : List FileTask} {f : SharedFile} (ht : tasks[i]? = some t)
    (hnext : t.next f.disk (f.phase i) = some (d, p)) : step tasks f i =
      some { f.move i p with disk := d, lock := if (f.phase i).holds && !p.holds then none else f.lock } := by
  simp only [step, ht]
  split
  · rename_i hphase
    rw [hphase, next_queued] at hnext
    cases hnext
  · rename_i hphase
    rw [FileTask.next, if_pos hphase] at hnext
    have henter := Option.some.inj hnext
    have hholds := enter_holds t f.disk
    rw [henter] at hholds ⊢
    simp [hholds, SharedFile.move]
  · rename_i hlocked
    rw [FileTask.next, if_neg hlocked] at hnext
    rw [hnext]
    rfl

theorem shared_work (h : Guarded tasks s) (h' : Guarded tasks (s.move i r d p locks)) (hr : tasks[i]? = some r)
    (hnext : r.task.next (s.disk r.username.text r.filename.text) (s.phase i) = some (d, p)) :
    storeStep tasks (s.shared tasks) i = some ((s.move i r d p locks).shared tasks) := by
  have ht : (tasks.map StoreTask.task)[i]? = some r.task := by simp [hr]
  have hphase := shared_phase (s := s) hr
  have hholder : (s.move i r d p locks).holder tasks r.username.text r.filename.text =
      if (s.phase i).holds && !p.holds then none else s.holder tasks r.username.text r.filename.text := by
    split
    · rename_i hreleases
      obtain ⟨hholds, hfree⟩ := Bool.and_eq_true_iff.mp hreleases
      refine Option.eq_none_iff_forall_not_mem.mpr fun j hj => ?_
      obtain ⟨hjf, hjp⟩ := h'.holder_eq_some.mp hj
      change (Function.update s.phase i p j).holds = true at hjp
      by_cases hji : j = i
      · rw [hji, Function.update_self] at hjp
        simp [hjp] at hfree
      · rw [Function.update_of_ne hji] at hjp
        exact hji (h.exclusive hjf (onFile_self hr) hjp hholds)
    · rename_i hkeeps
      have hsame : p.holds = (s.phase i).holds := by
        cases hp : p.holds with
        | true => exact (next_holds hnext hp).symm
        | false =>
          simp only [hp, Bool.not_false, Bool.and_true, Bool.not_eq_true] at hkeeps
          exact hkeeps.symm
      unfold LockedStore.holder
      congr 1
      funext j
      by_cases hji : j = i
      · simp [LockedStore.move, hji, hsame]
      · simp [LockedStore.move, Function.update_of_ne hji]
  refine storeStep_move hr ?_
  rw [step_next ht (by rw [hphase]; exact hnext), hphase, hholder]
  rfl

/-- What the lock manager does in between is not seen, and a turn on a file is a step on a file
with a lock of its own. -/
theorem shared_step (h : Guarded tasks s) (h' : Guarded tasks s') (hturned : Turned tasks s turn s') :
    s'.shared tasks = s.shared tasks ∨ ∃ i, (turn = .work i ∨ s.phase i = .queued) ∧
      storeStep tasks (s.shared tasks) i = some (s'.shared tasks) := by
  cases hturned with
  | probe _ _ _ => exact .inl rfl
  | @lock i r locks hr hlocks =>
    obtain ⟨slot, key, hreserved, _⟩ := step_lock hlocks
    obtain ⟨hqueued, _⟩ := h.reserved i slot key hreserved
    exact .inr ⟨i, .inr hqueued, shared_lock h h' hr rfl hqueued⟩
  | @work i r d p locks hr hnext _ => exact .inr ⟨i, .inl rfl, shared_work h h' hr hnext⟩
  | drop _ => exact .inl rfl

theorem calm_queued (hphase : s.phase i = .queued) : Calm tasks (s.shared tasks) i := by
  intro r hr hlocked
  rw [shared_phase hr, hphase] at hlocked
  cases hlocked

theorem aligned_turn {store : Store} (h : Guarded tasks s) (ha : Aligned tasks store (s.shared tasks))
    (hsafe : Undisturbed tasks s turn) (hstep : lockedStep tasks s turn = some s') :
    Guarded tasks s' ∧ Aligned tasks store (s'.shared tasks) := by
  have hturned := turned_of_step hstep
  have h' := guarded_step h hsafe hturned
  refine ⟨h', ?_⟩
  obtain hsame | ⟨i, rfl | hqueued, hshared⟩ := shared_step h h' hturned
  · rw [hsame]
    exact ha
  · exact aligned_step ha hsafe hshared
  · exact aligned_step ha (calm_queued hqueued) hshared

theorem shared_start (capacity : Capacity) (store : Store) :
    (startLocked capacity store).shared tasks = startStore store := by
  have hholder (username filename : Bytes) : (startLocked capacity store).holder tasks username filename = none := by
    simp [LockedStore.holder, startLocked, TaskPhase.holds]
  simp only [LockedStore.shared, hholder, startStore, start]
  simp [startLocked]

/-- The order of the answers only grows. -/
theorem answered_grows (hstep : lockedStep tasks s turn = some s') : s.answered <+: s'.answered := by
  have hmove {i : Nat} {r : StoreTask} {d : Disk} {p : TaskPhase} {locks : State Nat} :
      s.answered <+: (s.move i r d p locks).answered := by
    rw [LockedStore.move]
    split
    · exact List.prefix_append _ _
    · exact List.prefix_refl _
  cases turned_of_step hstep with
  | probe _ _ _ => exact List.prefix_refl _
  | lock _ _ => exact hmove
  | work _ _ _ => exact hmove
  | drop _ => exact List.prefix_refl _

end

/-- Two uploads at once, and a download that asks for its lock while the first of them has it. -/
def threeTasks : List StoreTask :=
  [⟨1, nameAlice, report, .upload bytesAbc ⟨none, false⟩⟩, ⟨2, nameBob, report, .upload bytesAbc ⟨some 1, false⟩⟩,
    ⟨1, nameAlice, report, .download⟩]

instance (tasks : List StoreTask) (s : SharedStore) (i : Nat) : Decidable (Calm tasks s i) := by
  unfold Calm
  infer_instance

instance (s : State Nat) (i : Nat) (username filename : Bytes) : Decidable (NoHiddenEntry s (.probe i username filename)) := by
  unfold NoHiddenEntry OnPath
  infer_instance

instance (tasks : List StoreTask) (s : LockedStore) : (turn : Turn) → Decidable (Undisturbed tasks s turn)
  | .probe i => inferInstanceAs (Decidable (∀ r ∈ tasks[i]?, NoHiddenEntry s.locks (.probe i r.username.text r.filename.text)))
  | .work i => inferInstanceAs (Decidable (Calm tasks (s.shared tasks) i))
  | .lock _ | .drop _ => .isTrue trivial

/-- The turns of the three tasks. -/
def interleaved : List Turn :=
  [.probe 0, .probe 1, .lock 1, .probe 2, .lock 0, .work 1, .work 0, .work 1, .work 0, .work 1, .work 0, .work 1, .work 0,
    .work 0, .drop 1, .lock 2, .work 2, .drop 0, .work 1, .work 2, .work 2, .drop 2]

def smallTable : Capacity := ⟨4, by decide, by decide⟩

end Stash.Threads
