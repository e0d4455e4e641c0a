import Mathlib.Data.List.Forall2
import Stash.Threads.FileStore
import Stash.Threads.Serializability

/-! Workers on the files of many users at once, each file with a lock of its own. Their answers are
those of one worker that takes the tasks in the order in which they are answered. -/
namespace Stash.Threads
open Foundation.CText Foundation.Paths Foundation.FileTree Foundation.Traces Auth

/-- A task on a file, as it comes out of the queue. -/
structure StoreTask where
  sessionId : UInt64
  username : Username
  filename : Filename
  task : FileTask

def StoreTask.request (r : StoreTask) : FileRequest := ⟨r.sessionId, r.username, .file r.filename r.task⟩

/-- The task is on this file of this user. -/
def onFile (tasks : List StoreTask) (username filename : Bytes) (i : Nat) : Bool :=
  tasks[i]?.any fun r => r.username.text = username ∧ r.filename.text = filename

/-- The files, each with its lock, and the tasks that are answered, in the order of their answers. -/
structure SharedStore where
  file : Bytes → Bytes → SharedFile
  answered : List Nat

def startStore (store : Store) : SharedStore := ⟨fun username filename => start (store username filename), []⟩

/-- The next step of the task `i` on its file. -/
def storeStep (tasks : List StoreTask) (s : SharedStore) (i : Nat) : Option SharedStore :=
  match tasks[i]? with
  | none => none
  | some r =>
    (step (tasks.map StoreTask.task) (s.file r.username.text r.filename.text) i).map fun file =>
      { file := fun username filename =>
          if username = r.username.text ∧ filename = r.filename.text then file else s.file username filename
        answered := if (file.phase i).response.isSome then s.answered ++ [i] else s.answered }

/-- A task first touches its file when no failed upload is about to remove it. -/
def Calm (tasks : List StoreTask) (s : SharedStore) (i : Nat) : Prop :=
  ∀ r ∈ tasks[i]?, (s.file r.username.text r.filename.text).phase i = .locked →
    ∀ j < tasks.length, (s.file r.username.text r.filename.text).phase j ≠ .cleaning

/-- What is asked of the server by these tasks. -/
def requestsOf (tasks : List StoreTask) (order : List Nat) : List FileRequest :=
  order.filterMap fun i => tasks[i]?.map StoreTask.request

/-- The tasks of one file in this order, one at a time. -/
def fileReplay (tasks : List StoreTask) (store : Store) (order : List Nat) (username filename : Bytes) :
    World × List (Nat × Response) :=
  replay (tasks.map StoreTask.task) (store username filename) (order.filter (onFile tasks username filename))

/-- One worker that takes the tasks in the order of their answers answers them alike, and leaves
what is left wherever no task is at work. -/
structure Linear (cwd : Path) (server : Server) (tasks : List StoreTask) (s : SharedStore) : Prop where
  once : s.answered.Nodup
  complete : ∀ i, i ∈ s.answered ↔ ∃ r ∈ tasks[i]?,
    ((s.file r.username.text r.filename.text).phase i).response.isSome
  answers : List.Forall₂ (fun i e => ∃ r ∈ tasks[i]?, e.1 = r.request ∧
      (s.file r.username.text r.filename.text).phase i = .done e.2)
    s.answered (serveAll (serveRequest cwd) server (requestsOf tasks s.answered)).2
  worlds : ∀ username filename, (∀ i, (s.file username filename).phase i = .queued ∨
      (s.file username filename).phase i = .locked ∨ ((s.file username filename).phase i).response.isSome) →
    (s.file username filename).disk.world =
      (serveAll (serveRequest cwd) server (requestsOf tasks s.answered)).1.store cwd username filename

section
variable {cwd : Path} {member : Bytes → Prop} {server : Server} {tasks : List StoreTask} {s s' : SharedStore}
  {store : Store} {r : StoreTask} {i j : Nat} {username filename : Bytes}

theorem onFile_eq_true : onFile tasks username filename i = true ↔
    ∃ r ∈ tasks[i]?, r.username.text = username ∧ r.filename.text = filename := by
  simp only [onFile, Option.any_eq_true, decide_eq_true_eq]
  rfl

theorem onFile_self (hr : tasks[i]? = some r) : onFile tasks r.username.text r.filename.text i = true :=
  onFile_eq_true.mpr ⟨r, hr, rfl, rfl⟩

theorem onFile_other (hr : tasks[i]? = some r) (hne : ¬ (username = r.username.text ∧ filename = r.filename.text)) :
    onFile tasks username filename i = false := by
  rw [Bool.eq_false_iff]
  intro h
  obtain ⟨r', hr', rfl, rfl⟩ := onFile_eq_true.mp h
  obtain rfl := Option.some.inj (hr'.symm.trans hr)
  exact hne ⟨rfl, rfl⟩

/-- The tasks of a file that are answered are in the order of its replay; a task stays out of the
files of others. -/
structure Aligned (tasks : List StoreTask) (store : Store) (s : SharedStore) : Prop where
  files : ∀ username filename, ∃ active, Placed (tasks.map StoreTask.task) (store username filename)
    (s.file username filename) (s.answered.filter (onFile tasks username filename)) active
  apart : ∀ username filename i, onFile tasks username filename i = false →
    (s.file username filename).phase i = .queued
  once : s.answered.Nodup
  valid : ∀ i ∈ s.answered, i < tasks.length

theorem aligned_start (tasks : List StoreTask) (store : Store) : Aligned tasks store (startStore store) where
  files username filename := ⟨none, (ordered_start _ _).toPlaced⟩
  apart _ _ _ _ := rfl
  once := List.nodup_nil
  valid _ hi := by cases hi

/-- A step of a task moves no other task of its file. -/
theorem phase_of_step {tasks : List FileTask} {f f' : SharedFile} (hstep : step tasks f i = some f') (hj : j ≠ i) :
    f'.phase j = f.phase j := by
  obtain ⟨t, _, ⟨_, _, rfl⟩ | ⟨_, rfl⟩ | ⟨d, p, _, rfl⟩⟩ := step_cases hstep
  · exact Function.update_of_ne hj _ _
  · exact Function.update_of_ne hj _ _
  · exact Function.update_of_ne hj _ _

theorem aligned_step (h : Aligned tasks store s) (hcalm : Calm tasks s i)
    (hstep : storeStep tasks s i = some s') : Aligned tasks store s' := by
  rw [storeStep] at hstep
  cases hr : tasks[i]? with
  | none => simp [hr] at hstep
  | some r =>
    simp only [hr] at hstep
    obtain ⟨f', hf', rfl⟩ := Option.map_eq_some_iff.mp hstep
    obtain ⟨active, hplaced⟩ := h.files r.username.text r.filename.text
    obtain ⟨active', hnext⟩ := placed_step hplaced (by simpa using hcalm r hr) hf'
    have hnew : (f'.phase i).response.isSome = true → i ∉ s.answered := by
      intro hanswered hmem
      rw [if_pos hanswered] at hnext
      exact List.disjoint_of_nodup_append hnext.nodup (List.mem_filter.mpr ⟨hmem, onFile_self hr⟩) (List.mem_singleton_self i)
    refine ⟨fun username filename => ?_, fun username filename j hj => ?_, ?_, ?_⟩
    · by_cases hkey : username = r.username.text ∧ filename = r.filename.text
      · obtain ⟨rfl, rfl⟩ := hkey
        refine ⟨active', ?_⟩
        have hfilter : (if (f'.phase i).response.isSome then s.answered ++ [i] else s.answered).filter
            (onFile tasks r.username.text r.filename.text) =
              if (f'.phase i).response.isSome then
                s.answered.filter (onFile tasks r.username.text r.filename.text) ++ [i]
              else s.answered.filter (onFile tasks r.username.text r.filename.text) := by
          split
          · simp [List.filter_append, onFile_self hr]
          · rfl
        simpa only [hfilter, and_self, if_true] using hnext
      · have hfilter : (if (f'.phase i).response.isSome then s.answered ++ [i] else s.answered).filter
            (onFile tasks username filename) = s.answered.filter (onFile tasks username filename) := by
          split
          · simp [List.filter_append, onFile_other hr hkey]
          · rfl
        simpa only [hfilter, if_neg hkey] using h.files username filename
    · by_cases hkey : username = r.username.text ∧ filename = r.filename.text
      · obtain ⟨rfl, rfl⟩ := hkey
        have hji : j ≠ i := by
          rintro rfl
          rw [onFile_self hr] at hj
          cases hj
        simpa only [and_self, if_true, phase_of_step hf' hji] using h.apart _ _ j hj
      · simpa only [if_neg hkey] using h.apart username filename j hj
    · split
      · rename_i hanswered
        exact List.nodup_append.mpr ⟨h.once, List.nodup_singleton i, fun a ha b hb heq =>
          hnew hanswered (List.mem_singleton.mp hb ▸ heq ▸ ha)⟩
      · exact h.once
    · intro j hj
      split at hj
      · rcases List.mem_append.mp hj with hj | hj
        · exact h.valid j hj
        · rw [List.mem_singleton.mp hj]
          exact (List.getElem?_eq_some_iff.mp hr).1
      · exact h.valid j hj

theorem fileReplay_self (hr : tasks[i]? = some r) (order : List Nat) :
    fileReplay tasks store (order ++ [i]) r.username.text r.filename.text =
      ((r.task.effect (fileReplay tasks store order r.username.text r.filename.text).1).1,
        (fileReplay tasks store order r.username.text r.filename.text).2 ++
          [(i, (r.task.effect (fileReplay tasks store order r.username.text r.filename.text).1).2)]) := by
  have ht : (tasks.map StoreTask.task)[i]? = some r.task := by simp [hr]
  rw [fileReplay, List.filter_append, List.filter_singleton, onFile_self hr]
  exact replay_concat ht

theorem fileReplay_other (hr : tasks[i]? = some r)
    (hne : ¬ (username = r.username.text ∧ filename = r.filename.text)) (order : List Nat) :
    fileReplay tasks store (order ++ [i]) username filename = fileReplay tasks store order username filename := by
  rw [fileReplay, fileReplay, List.filter_append, List.filter_singleton, onFile_other hr hne]
  simp

/-- The answers stay when one more task is replayed. -/
theorem mem_fileReplay (hr : tasks[i]? = some r) {order : List Nat} {e : Nat × Response}
    (he : e ∈ (fileReplay tasks store order username filename).2) :
    e ∈ (fileReplay tasks store (order ++ [i]) username filename).2 := by
  by_cases hkey : username = r.username.text ∧ filename = r.filename.text
  · obtain ⟨rfl, rfl⟩ := hkey
    rw [fileReplay_self hr]
    exact List.mem_append_left _ he
  · rwa [fileReplay_other hr hkey]

theorem request_serves {s : Server} (h : Serving cwd member s) (hallowed : r.request.Allowed member) :
    Serving cwd member (serveRequest cwd s r.request).1 ∧
      (serveRequest cwd s r.request).1.store cwd = (s.store cwd).put r.username.text r.filename.text
        (r.task.effect (s.store cwd r.username.text r.filename.text)).1 ∧
      (serveRequest cwd s r.request).2 = (r.task.effect (s.store cwd r.username.text r.filename.text)).2 :=
  file_serves h hallowed.1 hallowed.2.1 hallowed.2.2 r.sessionId r.task

/-- One worker that takes the tasks in an order does to each file what the replay does, and
answers as the replay does. -/
theorem serve_order (h : Serving cwd member server) (hallowed : ∀ r ∈ tasks, r.request.Allowed member)
    (order : List Nat) (hvalid : ∀ i ∈ order, i < tasks.length) :
    let served := serveAll (serveRequest cwd) server (requestsOf tasks order)
    Serving cwd member served.1 ∧
      (∀ username filename, served.1.store cwd username filename =
        (fileReplay tasks (server.store cwd) order username filename).1) ∧
      List.Forall₂ (fun i e => ∃ r ∈ tasks[i]?, e.1 = r.request ∧
        (i, e.2) ∈ (fileReplay tasks (server.store cwd) order r.username.text r.filename.text).2) order served.2 := by
  induction order using List.reverseRecOn with
  | nil => exact ⟨h, fun _ _ => rfl, .nil⟩
  | append_singleton order i ih =>
    intro served
    obtain ⟨hserving, hstore, hanswers⟩ := ih fun j hj => hvalid j (List.mem_append_left _ hj)
    obtain ⟨r, hr⟩ : ∃ r, tasks[i]? = some r := ⟨_, List.getElem?_eq_getElem (hvalid i (by simp))⟩
    set served₀ := serveAll (serveRequest cwd) server (requestsOf tasks order)
    obtain ⟨hkept, hput, hresponse⟩ := request_serves hserving (hallowed r (List.mem_of_getElem? hr))
    rw [hstore] at hresponse hput
    have hserved : served = ((serveRequest cwd served₀.1 r.request).1,
        served₀.2 ++ [(r.request, (serveRequest cwd served₀.1 r.request).2)]) := by
      have hrequests : requestsOf tasks (order ++ [i]) = requestsOf tasks order ++ [r.request] := by
        simp [requestsOf, List.filterMap_append, hr]
      simp only [served, hrequests, serveAll_append]
      rfl
    rw [hserved]
    refine ⟨hkept, fun username filename => ?_, ?_⟩
    · rw [hput]
      by_cases hkey : username = r.username.text ∧ filename = r.filename.text
      · obtain ⟨rfl, rfl⟩ := hkey
        rw [Store.put_self, fileReplay_self hr]
      · rw [Store.put_of_ne _ _ hkey, fileReplay_other hr hkey, hstore]
    · refine List.rel_append (hanswers.imp fun j e he => ?_) (.cons ?_ .nil)
      · obtain ⟨r', hr', hrequest, hlog⟩ := he
        exact ⟨r', hr', hrequest, mem_fileReplay hr hlog⟩
      · refine ⟨r, hr, rfl, ?_⟩
        rw [fileReplay_self hr]
        exact List.mem_append_right _ (List.mem_singleton.mpr (congrArg (Prod.mk i) hresponse))

/-- A task that is answered is in the order of its file. -/
theorem Placed.mem_of_done {tasks : List FileTask} {w : World} {f : SharedFile} {order : List Nat} {active : Option Nat}
    (h : Placed tasks w f order active) (hdone : (f.phase i).response.isSome) : i ∈ order := by
  by_contra hnot
  by_cases hactive : active = some i
  · subst hactive
    obtain ⟨_, t, _, hduring⟩ := h.present
    rw [during_unanswered hduring] at hdone
    cases hdone
  · rcases h.waiting i hnot hactive with hphase | hphase
    · rw [hphase] at hdone
      cases hdone
    · rw [hphase] at hdone
      cases hdone

/-- Where no task is at work the file is that of the replay. -/
theorem Placed.quiet {tasks : List FileTask} {w : World} {f : SharedFile} {order : List Nat} {active : Option Nat}
    (h : Placed tasks w f order active)
    (hquiet : ∀ i, f.phase i = .queued ∨ f.phase i = .locked ∨ (f.phase i).response.isSome) :
    f.disk.world = (replay tasks w order).1 := by
  cases active with
  | none => exact h.present
  | some i =>
    obtain ⟨_, t, _, hduring⟩ := h.present
    rcases hquiet i with hphase | hphase | hdone
    · rw [hphase] at hduring
      cases t <;> exact hduring.elim
    · rw [hphase] at hduring
      cases t <;> exact hduring.elim
    · rw [during_unanswered hduring] at hdone
      cases hdone

/-- What is aligned is linear. -/
theorem Aligned.linear (ha : Aligned tasks (server.store cwd) s) (h : Serving cwd member server)
    (hallowed : ∀ r ∈ tasks, r.request.Allowed member) : Linear cwd server tasks s := by
  obtain ⟨_, hstore, hanswers⟩ := serve_order h hallowed s.answered ha.valid
  have hdone : ∀ {i r response}, tasks[i]? = some r →
      (i, response) ∈ (fileReplay tasks (server.store cwd) s.answered r.username.text r.filename.text).2 →
        (s.file r.username.text r.filename.text).phase i = .done response := by
    intro i r response _ hlog
    obtain ⟨active, hplaced⟩ := ha.files r.username.text r.filename.text
    exact hplaced.answered i response hlog
  refine ⟨ha.once, fun i => ⟨fun hi => ?_, ?_⟩, hanswers.imp ?_, fun username filename hquiet => ?_⟩
  · obtain ⟨r, hr⟩ : ∃ r, tasks[i]? = some r := ⟨_, List.getElem?_eq_getElem (ha.valid i hi)⟩
    obtain ⟨active, hplaced⟩ := ha.files r.username.text r.filename.text
    have hmem := List.mem_filter.mpr ⟨hi, onFile_self hr⟩
    rw [← replay_answers (w := server.store cwd _ _) hplaced.valid] at hmem
    obtain ⟨⟨_, response⟩, hlog, rfl⟩ := List.mem_map.mp hmem
    exact ⟨r, hr, by rw [hdone hr hlog]; rfl⟩
  · rintro ⟨r, hr, hanswered⟩
    obtain ⟨active, hplaced⟩ := ha.files r.username.text r.filename.text
    exact (List.mem_filter.mp (hplaced.mem_of_done hanswered)).1
  · rintro i e ⟨r, hr, hrequest, hlog⟩
    exact ⟨r, hr, hrequest, hdone hr hlog⟩
  · obtain ⟨active, hplaced⟩ := ha.files username filename
    rw [hstore, hplaced.quiet hquiet]
    rfl

end

end Stash.Threads
