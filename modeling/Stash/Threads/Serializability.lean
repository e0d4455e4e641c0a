import Mathlib.Data.List.Permutation
import Stash.Threads.SameFile

/-! Interleaved tasks on one file against the same tasks one at a time, in the order in which
they first touch the file. -/
namespace Stash.Threads
open Foundation.CText Foundation.Runs

/-- An upload that is answered with an error. -/
def FileTask.fails : FileTask → Bool
  | .upload payload result => !result.calls.wrote payload.bytes
  | _ => false

/-- The finished run is that of the tasks one at a time in this order; what was downloaded was
there at the start or is the whole payload of an upload that was answered with success; and a
task that failed has left everything as it was. -/
structure Serial (tasks : List FileTask) (w : World) (s : SharedFile) (order : List Nat) : Prop where
  perm : order.Perm (List.range tasks.length)
  world : s.disk.world = (replay tasks w order).1
  responses : ∀ i response, i < tasks.length →
    (s.phase i = .done response ↔ (i, response) ∈ (replay tasks w order).2)
  whole : ∀ i data, i < tasks.length → s.phase i = .done (downloadOk data) → w.file = some data ∨
    ∃ j payload result, tasks[j]? = some (.upload payload result) ∧ s.phase j = .done uploadOk ∧
      payload.bytes = data
  kept : ∀ before i after t, order = before ++ i :: after → tasks[i]? = some t → t.fails = true →
    (replay tasks w (before ++ [i])).1 = (replay tasks w before).1

def Serializable (tasks : List FileTask) (w : World) (s : SharedFile) : Prop :=
  Finished tasks s → ∃ order, Serial tasks w s order

/-- A task first touches the file when no failed upload is about to remove it, and an upload
that is going to fail finds no file. -/
def Careful (tasks : List FileTask) (s : SharedFile) (i : Nat) : Prop :=
  s.phase i = .locked → (∀ j < tasks.length, s.phase j ≠ .cleaning) ∧
    ∀ t ∈ tasks[i]?, t.fails = true → s.disk.link = none

instance (tasks : List FileTask) (s : SharedFile) (i : Nat) : Decidable (Careful tasks s i) := by
  unfold Careful
  infer_instance

section
variable {tasks : List FileTask} {w : World} {s s' : SharedFile} {i j : Nat} {t : FileTask} {d d' : Disk}
  {p p' : TaskPhase}

theorem replay_concat {order : List Nat} (ht : tasks[i]? = some t) :
    replay tasks w (order ++ [i]) =
      ((t.effect (replay tasks w order).1).1,
        (replay tasks w order).2 ++ [(i, (t.effect (replay tasks w order).1).2)]) := by
  rw [replay, List.foldl_append]
  simp only [List.foldl_cons, List.foldl_nil, ht]
  rfl

/-- What the disk holds while a task that found `w` is between its first touch and its answer. -/
def During (t : FileTask) (w : World) (d : Disk) (p : TaskPhase) : Prop :=
  match t, p with
  | .upload _ _, .opened inode => d.link = some inode ∧ d.blocks inode = [] ∧ d.row = w.row
  | .upload payload result, .written inode =>
    d.link = some inode ∧ d.blocks inode = result.calls.stored payload.bytes ∧ d.row = w.row
  | .upload payload result, .closed =>
    d.link.map d.blocks = some (result.calls.stored payload.bytes) ∧ d.row = w.row
  | .upload payload result, .recorded =>
    result.calls.wrote payload.bytes = true ∧
      d.world = ⟨some (result.calls.stored payload.bytes), some payload.bytes.length⟩
  | .upload payload result, .cleaning => result.calls.wrote payload.bytes = false ∧ d.row = w.row
  | .download, .opened inode => d.link = some inode ∧ d.world = w
  | .download, .fetched data => d.world = w ∧ w.file = some data
  | .download, .missing => d.world = w ∧ w.file = none
  | .delete, .removed => w.file.isSome ∧ d.link = none ∧ d.row = w.row
  | .delete, .recorded => w.file.isSome ∧ d.world = ⟨none, none⟩
  | .delete, .missing => d.world = w ∧ w.file = none
  | _, _ => False

/-- The first touch. -/
theorem during_enter (t : FileTask) (d : Disk) : During t d.world (t.enter d).1 (t.enter d).2 := by
  cases t with
  | upload payload result =>
    simp only [FileTask.enter, Disk.truncate]
    split
    · rename_i inode hlink
      exact ⟨hlink, by simp, rfl⟩
    · exact ⟨rfl, by simp, rfl⟩
  | download =>
    simp only [FileTask.enter]
    split
    · rename_i inode hlink
      exact ⟨hlink, rfl⟩
    · rename_i hlink
      exact ⟨rfl, by simp [Disk.world, hlink]⟩
  | delete =>
    simp only [FileTask.enter]
    split
    · rename_i inode hlink
      exact ⟨by simp [Disk.world, hlink], rfl, rfl⟩
    · rename_i hlink
      exact ⟨rfl, by simp [Disk.world, hlink]⟩

private theorem upload_proceed {payload : Payload} {result : WriteResult}
    (h : During (.upload payload result) w d p)
    (hp : FileTask.proceed (.upload payload result) d p = some (d', p')) :
    During (.upload payload result) w d' p' ∨
      (p' = .done (FileTask.effect (.upload payload result) w).2 ∧
        d'.world = (FileTask.effect (.upload payload result) w).1) := by
  cases p with
  | opened inode =>
    obtain ⟨hlink, hempty, hrow⟩ := h
    obtain ⟨rfl, rfl⟩ := Prod.mk.inj (Option.some.inj hp)
    exact .inl ⟨hlink, by simp [Disk.write, hempty], hrow⟩
  | written inode =>
    obtain ⟨hlink, hblock, hrow⟩ := h
    obtain ⟨rfl, rfl⟩ := Prod.mk.inj (Option.some.inj hp)
    exact .inl ⟨by rw [hlink, Option.map_some, hblock], hrow⟩
  | closed =>
    obtain ⟨hfile, hrow⟩ := h
    simp only [FileTask.proceed] at hp
    split at hp
    · rename_i hwrote
      obtain ⟨rfl, rfl⟩ := Prod.mk.inj (Option.some.inj hp)
      exact .inl ⟨hwrote, by rw [Disk.world, Disk.setRow, hfile]⟩
    · rename_i hwrote
      obtain ⟨rfl, rfl⟩ := Prod.mk.inj (Option.some.inj hp)
      exact .inl ⟨Bool.eq_false_iff.mpr hwrote, hrow⟩
  | recorded =>
    obtain ⟨hwrote, hworld⟩ := h
    obtain ⟨rfl, rfl⟩ := Prod.mk.inj (Option.some.inj hp)
    right
    simp only [FileTask.effect, hwrote, if_true]
    exact ⟨trivial, hworld⟩
  | cleaning =>
    obtain ⟨hwrote, hrow⟩ := h
    obtain ⟨rfl, rfl⟩ := Prod.mk.inj (Option.some.inj hp)
    right
    simp only [FileTask.effect, hwrote, Bool.false_eq_true, if_false]
    exact ⟨trivial, by rw [Disk.world, Disk.unlink, Option.map_none, hrow]⟩
  | _ => cases hp

private theorem download_proceed (h : During .download w d p)
    (hp : FileTask.proceed .download d p = some (d', p')) :
    During .download w d' p' ∨
      (p' = .done (FileTask.effect .download w).2 ∧ d'.world = (FileTask.effect .download w).1) := by
  cases p with
  | opened inode =>
    obtain ⟨hlink, hworld⟩ := h
    obtain ⟨rfl, rfl⟩ := Prod.mk.inj (Option.some.inj hp)
    exact .inl ⟨hworld, by rw [← hworld, Disk.world, hlink, Option.map_some]⟩
  | fetched data =>
    obtain ⟨hworld, hfile⟩ := h
    obtain ⟨rfl, rfl⟩ := Prod.mk.inj (Option.some.inj hp)
    right
    simp only [FileTask.effect, hfile]
    exact ⟨trivial, hworld⟩
  | missing =>
    obtain ⟨hworld, hfile⟩ := h
    obtain ⟨rfl, rfl⟩ := Prod.mk.inj (Option.some.inj hp)
    right
    simp only [FileTask.effect, hfile]
    exact ⟨trivial, hworld⟩
  | _ => cases hp

private theorem delete_proceed (h : During .delete w d p)
    (hp : FileTask.proceed .delete d p = some (d', p')) :
    During .delete w d' p' ∨
      (p' = .done (FileTask.effect .delete w).2 ∧ d'.world = (FileTask.effect .delete w).1) := by
  cases p with
  | removed =>
    obtain ⟨hfile, hlink, _⟩ := h
    obtain ⟨rfl, rfl⟩ := Prod.mk.inj (Option.some.inj hp)
    exact .inl ⟨hfile, by rw [Disk.world, Disk.setRow, hlink, Option.map_none]⟩
  | recorded =>
    obtain ⟨hfile, hworld⟩ := h
    obtain ⟨rfl, rfl⟩ := Prod.mk.inj (Option.some.inj hp)
    obtain ⟨data, hdata⟩ := Option.isSome_iff_exists.mp hfile
    right
    simp only [FileTask.effect, hdata]
    exact ⟨trivial, hworld⟩
  | missing =>
    obtain ⟨hworld, hfile⟩ := h
    obtain ⟨rfl, rfl⟩ := Prod.mk.inj (Option.some.inj hp)
    right
    simp only [FileTask.effect, hfile]
    exact ⟨trivial, hworld⟩
  | _ => cases hp

/-- Each further step goes on, or ends with what the task does when it is alone. -/
theorem during_proceed (h : During t w d p) (hp : t.proceed d p = some (d', p')) :
    During t w d' p' ∨ (p' = .done (t.effect w).2 ∧ d'.world = (t.effect w).1) := by
  cases t with
  | upload payload result => exact upload_proceed h hp
  | download => exact download_proceed h hp
  | delete => exact delete_proceed h hp

theorem during_active (h : During t w d p) : p.holds = true ∨ p = .cleaning := by
  cases p with
  | queued => cases t <;> exact h.elim
  | locked => cases t <;> exact h.elim
  | cleaning => exact .inr rfl
  | done response => cases t <;> exact h.elim
  | _ => exact .inl rfl

/-- What a task has been answered. -/
def TaskPhase.response : TaskPhase → Option Response
  | .done response => some response
  | _ => none

theorem during_unanswered (h : During t w d p) : p.response = none := by
  cases p with
  | done response => cases t <;> exact h.elim
  | _ => rfl

/-- The state of the disk: that of the tasks in `order`, or one more task is at work on it. -/
def Present (tasks : List FileTask) (w : World) (s : SharedFile) (order : List Nat) : Option Nat → Prop
  | none => s.disk.world = (replay tasks w order).1
  | some i => i ∉ order ∧ ∃ t, tasks[i]? = some t ∧ During t (replay tasks w order).1 s.disk (s.phase i)

/-- The tasks in `order` are done with the answers of the replay, at most one is at work, all
others wait; the lock is with the one that holds it. -/
structure Placed (tasks : List FileTask) (w : World) (s : SharedFile) (order : List Nat)
    (active : Option Nat) : Prop where
  nodup : order.Nodup
  valid : ∀ i ∈ order, i < tasks.length
  answered : ∀ i response, (i, response) ∈ (replay tasks w order).2 → s.phase i = .done response
  waiting : ∀ i, i ∉ order → active ≠ some i → s.phase i = .queued ∨ s.phase i = .locked
  holder : ∀ i, (s.phase i).holds = true → s.lock = some i
  present : Present tasks w s order active

/-- And failed uploads have found no file. -/
structure Ordered (tasks : List FileTask) (w : World) (s : SharedFile) (order : List Nat)
    (active : Option Nat) : Prop extends Placed tasks w s order active where
  clean : ∀ before i after t, order = before ++ i :: after → tasks[i]? = some t → t.fails = true →
    (replay tasks w before).1.file = none
  fresh : ∀ i t, active = some i → tasks[i]? = some t → t.fails = true → (replay tasks w order).1.file = none

/-- The replay answers the tasks of the order, and no others. -/
theorem replay_answers {order : List Nat} (hvalid : ∀ i ∈ order, i < tasks.length) :
    (replay tasks w order).2.map Prod.fst = order := by
  induction order using List.reverseRecOn with
  | nil => rfl
  | append_singleton order i ih =>
    have ht := List.getElem?_eq_getElem (hvalid i (by simp))
    rw [replay_concat ht, List.map_append, ih fun j hj => hvalid j (List.mem_append_left _ hj)]
    rfl

section Order
variable {order : List Nat} {active : Option Nat}

theorem Placed.not_done (h : Placed tasks w s order active) (hi : ∀ response, s.phase i ≠ .done response) :
    i ∉ order := by
  intro hmem
  rw [← replay_answers (w := w) h.valid] at hmem
  obtain ⟨⟨j, response⟩, hlog, rfl⟩ := List.mem_map.mp hmem
  exact hi response (h.answered _ _ hlog)

/-- A task gets the lock. -/
theorem placed_acquire (h : Placed tasks w s order active) (hphase : s.phase i = .queued) (hlock : s.lock = none) :
    Placed tasks w { s.move i .locked with lock := some i } order active := by
  have hi : i ∉ order := h.not_done fun response hdone => by rw [hphase] at hdone; cases hdone
  have hother {j : Nat} (hj : j ≠ i) : Function.update s.phase i .locked j = s.phase j :=
    Function.update_of_ne hj _ _
  refine ⟨h.nodup, h.valid, fun j response hlog => ?_, fun j hj hactive => ?_, fun j hholds => ?_, ?_⟩
  · have hdone := h.answered j response hlog
    have hj : j ≠ i := by
      rintro rfl
      rw [hphase] at hdone
      cases hdone
    exact (hother hj).trans hdone
  · by_cases heq : j = i
    · exact .inr (by simp [SharedFile.move, heq])
    · have hwait := h.waiting j hj hactive
      rw [← hother heq] at hwait
      exact hwait
  · by_cases heq : j = i
    · rw [heq]
    · have hlocked := h.holder j (by rw [← hother heq]; exact hholds)
      rw [hlock] at hlocked
      cases hlocked
  · cases active with
    | none => exact h.present
    | some k =>
      obtain ⟨hk, t, ht, hduring⟩ := h.present
      have hne : k ≠ i := by
        rintro rfl
        rw [hphase] at hduring
        exact (during_active hduring).elim (fun hq => by cases hq) fun hq => by cases hq
      exact ⟨hk, t, ht, by rw [← hother hne] at hduring; exact hduring⟩

/-- Nobody is at work while a task holds the lock and has touched nothing, except for a failed
upload that is about to remove its file. -/
theorem Placed.idle (h : Placed tasks w s order active) (hphase : s.phase i = .locked)
    (hcalm : ∀ j < tasks.length, s.phase j ≠ .cleaning) : active = none := by
  have hlock : s.lock = some i := h.holder i (by rw [hphase]; rfl)
  cases active with
  | none => rfl
  | some k =>
    obtain ⟨_, t, ht, hduring⟩ := h.present
    rcases during_active hduring with hholds | hcleaning
    · obtain rfl := Option.some.inj (hlock.symm.trans (h.holder k hholds))
      rw [hphase] at hduring
      cases t <;> exact hduring.elim
    · exact absurd hcleaning (hcalm k (List.getElem?_eq_some_iff.mp ht).1)

/-- A task touches the file first: it is the only one at work. -/
theorem placed_enter (h : Placed tasks w s order none) (ht : tasks[i]? = some t) (hphase : s.phase i = .locked) :
    Placed tasks w { s.move i (t.enter s.disk).2 with disk := (t.enter s.disk).1 } order (some i) := by
  have hworld : s.disk.world = (replay tasks w order).1 := h.present
  have hi : i ∉ order := h.not_done fun response hdone => by rw [hphase] at hdone; cases hdone
  have hother {j : Nat} (hj : j ≠ i) : Function.update s.phase i (t.enter s.disk).2 j = s.phase j :=
    Function.update_of_ne hj _ _
  refine ⟨h.nodup, h.valid, fun j response hlog => ?_, fun j hj hactive => ?_, fun j hholds => ?_, hi, t, ht, ?_⟩
  · have hdone := h.answered j response hlog
    have hj : j ≠ i := by
      rintro rfl
      rw [hphase] at hdone
      cases hdone
    exact (hother hj).trans hdone
  · have heq : j ≠ i := fun heq => hactive (by rw [heq])
    have hwait := h.waiting j hj (by simp)
    rw [← hother heq] at hwait
    exact hwait
  · by_cases heq : j = i
    · rw [heq]
      exact h.holder i (by rw [hphase]; rfl)
    · exact h.holder j (by rw [← hother heq]; exact hholds)
  · rw [← hworld]
    have hduring := during_enter t s.disk
    simpa [SharedFile.move] using hduring

/-- The task at work makes a step; with its answer it comes into the order. -/
theorem placed_proceed (h : Placed tasks w s order active) (ht : tasks[i]? = some t)
    (hproceed : t.proceed s.disk (s.phase i) = some (d', p')) :
    active = some i ∧ Placed tasks w { s.move i p' with
      disk := d', lock := if (s.phase i).holds && !p'.holds then none else s.lock }
      (if p'.response.isSome then order ++ [i] else order) (if p'.response.isSome then none else some i) := by
  have hi : i ∉ order := by
    refine h.not_done fun response hdone => ?_
    rw [hdone] at hproceed
    cases t <;> cases hproceed
  have hactive : active = some i := by
    by_contra hne
    rcases h.waiting i hi hne with hphase | hphase
    · rw [hphase] at hproceed
      cases t <;> cases hproceed
    · rw [hphase] at hproceed
      cases t <;> cases hproceed
  subst hactive
  refine ⟨rfl, ?_⟩
  obtain ⟨_, t', ht', hduring⟩ := h.present
  obtain rfl : t' = t := Option.some.inj (ht'.symm.trans ht)
  have hother {j : Nat} (hj : j ≠ i) : Function.update s.phase i p' j = s.phase j :=
    Function.update_of_ne hj _ _
  have hself : Function.update s.phase i p' i = p' := Function.update_self _ _ _
  have hanswered (j : Nat) (response : Response) (hlog : (j, response) ∈ (replay tasks w order).2) :
      Function.update s.phase i p' j = .done response := by
    have hdone := h.answered j response hlog
    have hj : j ≠ i := by
      rintro rfl
      rw [hdone] at hproceed
      cases t' <;> cases hproceed
    exact (hother hj).trans hdone
  have hwaiting (j : Nat) (hj : j ∉ order) (hne : j ≠ i) :
      Function.update s.phase i p' j = .queued ∨ Function.update s.phase i p' j = .locked := by
    rw [hother hne]
    exact h.waiting j hj fun heq => hne (Option.some.inj heq).symm
  have hholder (j : Nat) (hholds : (Function.update s.phase i p' j).holds = true) :
      (if (s.phase i).holds && !p'.holds then none else s.lock) = some j := by
    by_cases heq : j = i
    · subst heq
      rw [hself] at hholds
      rw [hholds, Bool.not_true, Bool.and_false, if_neg Bool.false_ne_true]
      exact h.holder j (proceed_holds hproceed hholds)
    · rw [hother heq] at hholds
      have hlock := h.holder j hholds
      rw [if_neg, hlock]
      intro hrelease
      have hlock' := h.holder i (Bool.and_eq_true_iff.mp hrelease).1
      exact heq (Option.some.inj (hlock.symm.trans hlock'))
  rcases during_proceed hduring hproceed with hstill | ⟨hdone, hworld⟩
  · rw [during_unanswered hstill]
    refine ⟨h.nodup, h.valid, hanswered, fun j hj hne => ?_, hholder, hi, t', ht, ?_⟩
    · exact hwaiting j hj fun heq => hne (by rw [heq]; rfl)
    · change During t' _ d' (Function.update s.phase i p' i)
      rw [hself]
      exact hstill
  · rw [hdone, TaskPhase.response, Option.isSome_some, if_pos rfl, if_pos rfl, ← hdone]
    refine ⟨?_, fun j hj => ?_, fun j response hlog => ?_, fun j hj _ => ?_, hholder, ?_⟩
    · rw [List.nodup_append]
      refine ⟨h.nodup, List.nodup_singleton _, fun j hj k hk => ?_⟩
      rintro rfl
      exact hi ((List.mem_singleton.mp hk) ▸ hj)
    · rcases List.mem_append.mp hj with hj | hj
      · exact h.valid j hj
      · rw [List.mem_singleton.mp hj]
        exact (List.getElem?_eq_some_iff.mp ht).1
    · rw [replay_concat ht] at hlog
      rcases List.mem_append.mp hlog with hlog | hlog
      · exact hanswered j response hlog
      · obtain ⟨rfl, rfl⟩ := Prod.mk.inj (List.mem_singleton.mp hlog)
        exact hself.trans hdone
    · rw [List.mem_append, List.mem_singleton, not_or] at hj
      exact hwaiting j hj.1 hj.2
    · change d'.world = _
      rw [replay_concat ht, hworld]

/-- A step keeps the order, or adds the task that it answers, when no task touches a file first
that a failed upload is about to remove. -/
theorem placed_step (h : Placed tasks w s order active)
    (hcalm : s.phase i = .locked → ∀ j < tasks.length, s.phase j ≠ .cleaning) (hstep : step tasks s i = some s') :
    ∃ active', Placed tasks w s' (if (s'.phase i).response.isSome then order ++ [i] else order) active' := by
  obtain ⟨t, ht, ⟨hphase, hlock, rfl⟩ | ⟨hphase, rfl⟩ | ⟨d, p, hproceed, rfl⟩⟩ := step_cases hstep
  · have hlocked := placed_acquire h hphase hlock
    refine ⟨active, ?_⟩
    simpa [SharedFile.move, TaskPhase.response] using hlocked
  · obtain rfl := h.idle hphase (hcalm hphase)
    have hentered := placed_enter h ht hphase
    have hnone := during_unanswered (during_enter t s.disk)
    refine ⟨some i, ?_⟩
    simpa [SharedFile.move, hnone] using hentered
  · obtain ⟨_, hproceeded⟩ := placed_proceed h ht hproceed
    refine ⟨if p.response.isSome then none else some i, ?_⟩
    simpa [SharedFile.move] using hproceeded

theorem ordered_acquire (h : Ordered tasks w s order active) (hphase : s.phase i = .queued) (hlock : s.lock = none) :
    Ordered tasks w { s.move i .locked with lock := some i } order active :=
  ⟨placed_acquire h.toPlaced hphase hlock, h.clean, h.fresh⟩

theorem ordered_enter (h : Ordered tasks w s order active) (ht : tasks[i]? = some t) (hphase : s.phase i = .locked)
    (hcareful : Careful tasks s i) :
    Ordered tasks w { s.move i (t.enter s.disk).2 with disk := (t.enter s.disk).1 } order (some i) := by
  obtain ⟨hcalm, hnofile⟩ := hcareful hphase
  obtain rfl := h.idle hphase hcalm
  have hworld : s.disk.world = (replay tasks w order).1 := h.present
  refine ⟨placed_enter h.toPlaced ht hphase, h.clean, fun j t' hj ht' hfails => ?_⟩
  obtain rfl := Option.some.inj hj
  rw [← hworld, Disk.world, hnofile t' ht' hfails]
  rfl

theorem ordered_proceed (h : Ordered tasks w s order active) (ht : tasks[i]? = some t)
    (hproceed : t.proceed s.disk (s.phase i) = some (d', p')) :
    ∃ order' active', Ordered tasks w { s.move i p' with
      disk := d', lock := if (s.phase i).holds && !p'.holds then none else s.lock } order' active' := by
  obtain ⟨rfl, hplaced⟩ := placed_proceed h.toPlaced ht hproceed
  refine ⟨_, _, hplaced, ?_, ?_⟩
  · split
    · intro before k after t hsplit htask hfails
      rcases List.eq_nil_or_concat after with rfl | ⟨after, last, rfl⟩
      · obtain rfl : order = before := List.append_inj_left' hsplit rfl
        obtain rfl : i = k := List.singleton_inj.mp (List.append_inj_right' hsplit rfl)
        exact h.fresh i t rfl htask hfails
      · rw [List.concat_eq_append, ← List.cons_append, ← List.append_assoc] at hsplit
        exact h.clean before k after t (List.append_inj_left' hsplit rfl) htask hfails
    · exact h.clean
  · split
    · rintro j t' ⟨⟩
    · exact h.fresh

end Order

theorem stored_of_wrote {result : WriteResult} {payload : Bytes} (h : result.calls.wrote payload = true) :
    result.calls.stored payload = payload := by
  simp only [Calls.wrote, Bool.and_eq_true, beq_iff_eq] at h
  rw [Calls.stored, h.2]
  simp [WriteResult.calls, Calls.succeeding]

/-- What a replay leaves was there at the start, or a successful upload has put it there. -/
theorem replay_file {order : List Nat} (hvalid : ∀ i ∈ order, i < tasks.length) {data : Bytes}
    (h : (replay tasks w order).1.file = some data) : w.file = some data ∨
      ∃ j payload result, tasks[j]? = some (.upload payload result) ∧
        (j, uploadOk) ∈ (replay tasks w order).2 ∧ payload.bytes = data := by
  induction order using List.reverseRecOn with
  | nil => exact .inl h
  | append_singleton order i ih =>
    obtain ⟨t, ht⟩ : ∃ t, tasks[i]? = some t := ⟨_, List.getElem?_eq_getElem (hvalid i (by simp))⟩
    have hearlier (hfile : (replay tasks w order).1.file = some data) : w.file = some data ∨
        ∃ j payload result, tasks[j]? = some (.upload payload result) ∧
          (j, uploadOk) ∈ (replay tasks w (order ++ [i])).2 ∧ payload.bytes = data := by
      rcases ih (fun j hj => hvalid j (List.mem_append_left _ hj)) hfile with
        hstart | ⟨j, payload, result, hj, hlog, hdata⟩
      · exact .inl hstart
      · refine .inr ⟨j, payload, result, hj, ?_, hdata⟩
        rw [replay_concat ht]
        exact List.mem_append_left _ hlog
    rw [replay_concat ht] at h
    cases t with
    | upload payload result =>
      cases hwrote : result.calls.wrote payload.bytes with
      | true =>
        simp only [FileTask.effect, hwrote, if_true, Option.some.injEq] at h
        refine .inr ⟨i, payload, result, ht, ?_, (stored_of_wrote hwrote).symm.trans h⟩
        rw [replay_concat ht]
        simp [FileTask.effect, hwrote]
      | false =>
        simp [FileTask.effect, hwrote] at h
    | download =>
      apply hearlier
      simp only [FileTask.effect] at h
      split at h
      · exact h
      · exact h
    | delete =>
      apply hearlier
      simp only [FileTask.effect] at h
      split at h
      · cases h
      · exact h

/-- Only a download answers with data, and it is what it found. -/
theorem effect_downloadOk {data : Bytes} (h : (t.effect w).2 = downloadOk data) : w.file = some data := by
  have hupload : uploadOk.message ≠ (downloadOk []).message := by decide
  have hfailed : uploadFailed.message ≠ (downloadOk []).message := by decide
  have hdelete : deleteOk.message ≠ (downloadOk []).message := by decide
  have hopen : (downloadOpenError .enoent).status ≠ (downloadOk []).status := by decide
  have hremove : (deleteError .enoent).status ≠ (downloadOk []).status := by decide
  cases t with
  | upload payload result =>
    simp only [FileTask.effect] at h
    split at h
    · exact absurd (congrArg Response.message h) hupload
    · exact absurd (congrArg Response.message h) hfailed
  | download =>
    simp only [FileTask.effect] at h
    split at h
    · rename_i found hfound
      have hdata : found = data := congrArg Response.data h
      rw [hfound, hdata]
    · exact absurd (congrArg Response.status h) hopen
  | delete =>
    simp only [FileTask.effect] at h
    split at h
    · exact absurd (congrArg Response.message h) hdelete
    · exact absurd (congrArg Response.status h) hremove

theorem replay_download {order : List Nat} (hvalid : ∀ i ∈ order, i < tasks.length) {data : Bytes}
    (h : (i, downloadOk data) ∈ (replay tasks w order).2) : w.file = some data ∨
      ∃ j payload result, tasks[j]? = some (.upload payload result) ∧
        (j, uploadOk) ∈ (replay tasks w order).2 ∧ payload.bytes = data := by
  induction order using List.reverseRecOn with
  | nil => cases h
  | append_singleton order k ih =>
    have ht := List.getElem?_eq_getElem (hvalid k (by simp))
    have hvalid' (j : Nat) (hj : j ∈ order) : j < tasks.length := hvalid j (List.mem_append_left _ hj)
    have hfound : w.file = some data ∨ ∃ j payload result, tasks[j]? = some (.upload payload result) ∧
        (j, uploadOk) ∈ (replay tasks w order).2 ∧ payload.bytes = data := by
      rw [replay_concat ht] at h
      rcases List.mem_append.mp h with hlog | hlast
      · exact ih hvalid' hlog
      · have hresponse := (Prod.mk.inj (List.mem_singleton.mp hlast)).2
        exact replay_file hvalid' (effect_downloadOk hresponse.symm)
    rcases hfound with hstart | ⟨j, payload, result, hj, hlog, hdata⟩
    · exact .inl hstart
    · refine .inr ⟨j, payload, result, hj, ?_, hdata⟩
      rw [replay_concat ht]
      exact List.mem_append_left _ hlog

theorem effect_fails (hfails : t.fails = true) (hfile : w.file = none) : (t.effect w).1 = w := by
  cases t with
  | upload payload result =>
    have hwrote : result.calls.wrote payload.bytes = false := by simpa [FileTask.fails] using hfails
    simp only [FileTask.effect, hwrote, Bool.false_eq_true, if_false, ← hfile]
  | download => cases hfails
  | delete => cases hfails

theorem ordered_start (tasks : List FileTask) (w : World) : Ordered tasks w (start w) [] none where
  nodup := List.nodup_nil
  valid := fun _ hi => by cases hi
  answered := fun _ _ hlog => by cases hlog
  waiting := fun _ _ _ => .inl rfl
  holder := fun _ hholds => by cases hholds
  clean := fun before i after _ hsplit => absurd hsplit.symm (List.append_ne_nil_of_right_ne_nil before (by simp))
  fresh := fun _ _ hactive => by cases hactive
  present := by
    obtain ⟨file, row⟩ := w
    cases file with
    | none => rfl
    | some data => rfl

/-- A careful step keeps the order, or adds the task that it answers. -/
theorem ordered_step {order : List Nat} {active : Option Nat} (h : Ordered tasks w s order active)
    (hcareful : Careful tasks s i) (hstep : step tasks s i = some s') :
    ∃ order' active', Ordered tasks w s' order' active' := by
  obtain ⟨t, ht, hcase⟩ := step_cases hstep
  rcases hcase with ⟨hphase, hlock, rfl⟩ | ⟨hphase, rfl⟩ | ⟨d, p, hproceed, rfl⟩
  · exact ⟨order, active, ordered_acquire h hphase hlock⟩
  · exact ⟨order, some i, ordered_enter h ht hphase hcareful⟩
  · exact ordered_proceed h ht hproceed

/-- When all are answered, all are in the order. -/
theorem Placed.finished {order : List Nat} {active : Option Nat} (h : Placed tasks w s order active)
    (hdone : Finished tasks s) : active = none ∧ order.Perm (List.range tasks.length) := by
  have hnone : active = none := by
    cases active with
    | none => rfl
    | some k =>
      obtain ⟨_, t, ht, hduring⟩ := h.present
      obtain ⟨response, hresponse⟩ := hdone k (List.getElem?_eq_some_iff.mp ht).1
      rw [hresponse] at hduring
      cases t <;> exact hduring.elim
  refine ⟨hnone, (List.perm_ext_iff_of_nodup h.nodup List.nodup_range).mpr fun i => ?_⟩
  rw [List.mem_range]
  refine ⟨h.valid i, fun hi => ?_⟩
  by_contra hmem
  obtain ⟨response, hresponse⟩ := hdone i hi
  rcases h.waiting i hmem (by rw [hnone]; simp) with hphase | hphase
  · rw [hresponse] at hphase
    cases hphase
  · rw [hresponse] at hphase
    cases hphase

theorem Ordered.serial {order : List Nat} {active : Option Nat} (h : Ordered tasks w s order active)
    (hdone : Finished tasks s) : Serial tasks w s order := by
  obtain ⟨rfl, hperm⟩ := h.finished hdone
  have hresponses (i : Nat) (response : Response) (hi : i < tasks.length) :
      s.phase i = .done response ↔ (i, response) ∈ (replay tasks w order).2 := by
    refine ⟨fun hphase => ?_, h.answered i response⟩
    have hmem : i ∈ order := hperm.mem_iff.mpr (List.mem_range.mpr hi)
    rw [← replay_answers (w := w) h.valid] at hmem
    obtain ⟨⟨j, answer⟩, hlog, rfl⟩ := List.mem_map.mp hmem
    have hanswer := h.answered _ _ hlog
    rw [hphase] at hanswer
    cases hanswer
    exact hlog
  refine ⟨hperm, h.present, hresponses, fun i data hi hphase => ?_, ?_⟩
  · rcases replay_download h.valid ((hresponses i _ hi).mp hphase) with
      hstart | ⟨j, payload, result, hj, hlog, hdata⟩
    · exact .inl hstart
    · exact .inr ⟨j, payload, result, hj, h.answered j _ hlog, hdata⟩
  · intro before i after t hsplit ht hfails
    rw [replay_concat ht, effect_fails hfails (h.clean before i after t hsplit ht hfails)]

/-- In every run in which no task meets the file of a failed upload, and no failing upload
opens a file, the tasks are serialized. -/
theorem serializable_of_careful (tasks : List FileTask) (w : World) (schedule : List Nat)
    (h : Along (step tasks) (Careful tasks) (start w) schedule) :
    Always (step tasks) (Serializable tasks w) (start w) schedule := by
  have hordered : Always (step tasks) (fun s => ∃ order active, Ordered tasks w s order active)
      (start w) schedule := by
    refine Along.always (fun s i s' hs hcareful hstep => ?_) ⟨[], none, ordered_start tasks w⟩ h
    obtain ⟨order, active, hs⟩ := hs
    exact ordered_step hs hcareful hstep
  refine hordered.mono fun s hs hdone => ?_
  obtain ⟨order, active, hs⟩ := hs
  exact ⟨order, hs.serial hdone⟩

end

theorem length_abc : (ascii "abc").length < 2 ^ 63 := by decide

/-- An upload of three bytes whose `fwrite` takes so many, and a download. -/
def uploadAndDownload (fwrite : Option Nat) : List FileTask :=
  [.upload ⟨ascii "abc", length_abc⟩ ⟨fwrite, false⟩, .download]

theorem serializable_upload_then_download :
    (∃ s, run (step (uploadAndDownload none)) (start ⟨none, none⟩) [0, 0, 0, 0, 0, 0, 1, 1, 1, 1] = some s ∧
      s.phase 0 = .done uploadOk ∧ s.phase 1 = .done (downloadOk (ascii "abc"))) ∧
    Always (step (uploadAndDownload none)) (Serializable (uploadAndDownload none) ⟨none, none⟩)
      (start ⟨none, none⟩) [0, 0, 0, 0, 0, 0, 1, 1, 1, 1] :=
  ⟨⟨_, rfl, by decide +kernel, by decide +kernel⟩, serializable_of_careful _ _ _ (by decide +kernel)⟩

/-- The download takes the lock when the failed upload has given it up, but not removed its file:
it answers with the byte that was written, which no order of the two does. -/
theorem download_of_failed_upload :
    (∃ s, run (step (uploadAndDownload (some 1))) (start ⟨none, none⟩) [0, 0, 0, 0, 0, 1, 1, 1, 1, 0] = some s ∧
      s.phase 0 = .done uploadFailed ∧ s.phase 1 = .done (downloadOk (ascii "a"))) ∧
    (∀ order : List Nat, order.Perm (List.range 2) →
      (1, downloadOk (ascii "a")) ∉ (replay (uploadAndDownload (some 1)) ⟨none, none⟩ order).2) ∧
    ¬ Always (step (uploadAndDownload (some 1))) (Serializable (uploadAndDownload (some 1)) ⟨none, none⟩)
      (start ⟨none, none⟩) [0, 0, 0, 0, 0, 1, 1, 1, 1, 0] := by
  have hend : ∃ s, run (step (uploadAndDownload (some 1))) (start ⟨none, none⟩) [0, 0, 0, 0, 0, 1, 1, 1, 1, 0] =
      some s ∧ s.phase 0 = .done uploadFailed ∧ s.phase 1 = .done (downloadOk (ascii "a")) :=
    ⟨_, rfl, by decide +kernel, by decide +kernel⟩
  have hnone (order : List Nat) (hperm : order.Perm (List.range 2)) :
      (1, downloadOk (ascii "a")) ∉ (replay (uploadAndDownload (some 1)) ⟨none, none⟩ order).2 := by
    intro hlog
    have hvalid (i : Nat) (hi : i ∈ order) : i < (uploadAndDownload (some 1)).length :=
      List.mem_range.mp (hperm.mem_iff.mp hi)
    rcases replay_download hvalid hlog with hstart | ⟨j, payload, result, hj, _, hdata⟩
    · cases hstart
    · match j with
      | 0 =>
        cases hj
        exact absurd hdata (by decide)
      | 1 => cases hj
      | j + 2 => cases hj
  refine ⟨hend, hnone, fun halways => ?_⟩
  obtain ⟨s, hrun, hupload, hdownload⟩ := hend
  have hfinished : Finished (uploadAndDownload (some 1)) s := by
    intro i hi
    match i with
    | 0 => exact ⟨_, hupload⟩
    | 1 => exact ⟨_, hdownload⟩
    | i + 2 => exact absurd hi (by simp [uploadAndDownload])
  obtain ⟨order, hserial⟩ := halways.last hrun hfinished
  exact hnone order hserial.perm ((hserial.responses 1 _ (by decide)).mp hdownload)

end Stash.Threads
