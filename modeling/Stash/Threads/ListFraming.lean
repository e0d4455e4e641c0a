import Mathlib.Data.List.Infix
import Stash.Threads.WorkerThread

/-! The buffer in which a worker collects a listing: which names it takes, and when the
terminator still fits behind them. -/
namespace Stash.Threads
open Foundation.CText

/-- The names that the loop does not skip. -/
def shown (names : List Bytes) : List Bytes := names.filter fun name => !skipped name

/-- One line for each name. -/
def lines (names : List Bytes) : Bytes := names.flatMap fun name => name ++ ascii "\n"

def listEnd : Bytes := ascii "LIST END\n"

/-- The size computations of the loop and of the terminator as integers: `remaining`,
`remaining - strlen(name)`, and what is left in the end. -/
def listSizes : Bytes → List Bytes → List Int
  | buffer, [] => [(listBufferSize : Int) - buffer.length - 1]
  | buffer, name :: names =>
    if skipped name then listSizes buffer names
    else
      let remaining := (listBufferSize : Int) - buffer.length - 1
      if (name.length + 1 : Int) ≥ remaining then [remaining, remaining]
      else remaining :: (remaining - name.length) :: listSizes (buffer ++ name ++ ascii "\n") names

/-- Whole lines in the order of the directory and the whole terminator, within the buffer. -/
structure WellFramed (names : List Bytes) : Prop where
  framed : ∃ listed, listed.Sublist (shown names) ∧ listData names = lines listed ++ listEnd
  length_le : (listData names).length ≤ listBufferSize - 1
  sizes : ∀ size ∈ listSizes [] names, 0 ≤ size

theorem lines_cons (name : Bytes) (names : List Bytes) :
    lines (name :: names) = name ++ ascii "\n" ++ lines names := List.flatMap_cons

theorem length_line (name : Bytes) : (name ++ ascii "\n").length = name.length + 1 := by
  rw [List.length_append]
  rfl

theorem shown_cons (name : Bytes) (names : List Bytes) :
    shown (name :: names) = if skipped name then shown names else name :: shown names := by
  rw [shown, List.filter_cons]
  cases skipped name <;> rfl

/-- A name that fits is appended with its newline. -/
theorem listNames_fits {buffer name : Bytes} {names : List Bytes} (hshown : skipped name = false)
    (hfits : buffer.length + name.length + 1 ≤ listBufferSize - 2) :
    listNames buffer (name :: names) = listNames (buffer ++ name ++ ascii "\n") names := by
  have hsize : listBufferSize = 4096 := rfl
  have hroom : ¬ name.length + 1 ≥ listBufferSize - buffer.length - 1 := by omega
  have hname : name.take (listBufferSize - buffer.length - 1) = name :=
    List.take_of_length_le (by omega)
  have hnewline : (ascii "\n").take (listBufferSize - buffer.length - 1 - name.length) = ascii "\n" := by
    apply List.take_of_length_le
    rw [show (ascii "\n").length = 1 from rfl]
    omega
  rw [listNames, hshown, if_neg Bool.false_ne_true]
  simp only [hroom, if_false]
  rw [strncat, strncat, hname, hnewline]

theorem listNames_full {buffer name : Bytes} {names : List Bytes} (hshown : skipped name = false)
    (hfull : listBufferSize - 2 < buffer.length + name.length + 1) :
    listNames buffer (name :: names) = buffer := by
  have hsize : listBufferSize = 4096 := rfl
  have hroom : name.length + 1 ≥ listBufferSize - buffer.length - 1 := by omega
  rw [listNames, hshown, if_neg Bool.false_ne_true]
  simp only [hroom, if_true]

/-- The loop takes the names, in order, up to the first whose line does not fit; two bytes of
the buffer stay free. -/
theorem listNames_spec (buffer : Bytes) (names : List Bytes) (hbuffer : buffer.length ≤ listBufferSize - 2) :
    ∃ listed, listed <+: shown names ∧ listNames buffer names = buffer ++ lines listed ∧
      (buffer ++ lines listed).length ≤ listBufferSize - 2 ∧
      ∀ p, p <+: shown names → (buffer ++ lines p).length ≤ listBufferSize - 2 → p <+: listed := by
  induction names generalizing buffer with
  | nil =>
    refine ⟨[], List.prefix_refl _, ?_, ?_, fun p hp _ => hp⟩
    · simp [listNames, lines]
    · simpa [lines] using hbuffer
  | cons name names ih =>
    rw [shown_cons]
    cases hskipped : skipped name with
    | true =>
      rw [if_pos rfl, listNames, hskipped, if_pos rfl]
      exact ih buffer hbuffer
    | false =>
      rw [if_neg Bool.false_ne_true]
      by_cases hfits : buffer.length + name.length + 1 ≤ listBufferSize - 2
      · have hline : (buffer ++ name ++ ascii "\n").length ≤ listBufferSize - 2 := by
          rw [List.append_assoc, List.length_append, length_line]
          omega
        obtain ⟨listed, hprefix, hlist, hlength, hmax⟩ := ih (buffer ++ name ++ ascii "\n") hline
        have hassoc (p : List Bytes) : buffer ++ lines (name :: p) = buffer ++ name ++ ascii "\n" ++ lines p := by
          rw [lines_cons]
          simp only [List.append_assoc]
        refine ⟨name :: listed, List.cons_prefix_cons.mpr ⟨rfl, hprefix⟩, ?_, ?_, fun p hp hlen => ?_⟩
        · rw [listNames_fits hskipped hfits, hlist, hassoc]
        · rw [hassoc]
          exact hlength
        · cases p with
          | nil => exact List.nil_prefix
          | cons first p =>
            obtain ⟨rfl, hrest⟩ := List.cons_prefix_cons.mp hp
            rw [hassoc] at hlen
            exact List.cons_prefix_cons.mpr ⟨rfl, hmax p hrest hlen⟩
      · refine ⟨[], List.nil_prefix, ?_, ?_, fun p hp hlen => ?_⟩
        · rw [listNames_full hskipped (by omega)]
          simp [lines]
        · simpa [lines] using hbuffer
        · cases p with
          | nil => exact List.nil_prefix
          | cons first p =>
            -- The line of the first name alone is too long.
            obtain ⟨rfl, _⟩ := List.cons_prefix_cons.mp hp
            rw [lines_cons, List.length_append, List.length_append, length_line] at hlen
            omega

theorem listSizes_nonneg (buffer : Bytes) (names : List Bytes) (hbuffer : buffer.length ≤ listBufferSize - 2) :
    ∀ size ∈ listSizes buffer names, 0 ≤ size := by
  have hsize : listBufferSize = 4096 := rfl
  induction names generalizing buffer with
  | nil =>
    intro size hmem
    rw [listSizes, List.mem_singleton] at hmem
    omega
  | cons name names ih =>
    unfold listSizes
    split
    · exact ih buffer hbuffer
    · simp only
      split
      · intro size hmem
        simp only [List.mem_cons, List.not_mem_nil, or_false, or_self] at hmem
        omega
      · rename_i hroom
        have hline : (buffer ++ name ++ ascii "\n").length ≤ listBufferSize - 2 := by
          rw [List.append_assoc, List.length_append, length_line]
          omega
        intro size hmem
        rcases List.mem_cons.mp hmem with rfl | hmem
        · omega
        rcases List.mem_cons.mp hmem with rfl | hmem
        · omega
        exact ih _ hline size hmem

/-- Behind the lines stands as much of the terminator as fits. -/
theorem listData_eq {names listed : List Bytes} (h : listNames [] names = lines listed) :
    listData names = lines listed ++ listEnd.take (listBufferSize - (lines listed).length - 1) := by
  rw [listData, h, strncat, listEnd]

theorem length_listData (names : List Bytes) : (listData names).length ≤ listBufferSize - 1 := by
  have hbuffer : listBufferSize = 4096 := rfl
  obtain ⟨listed, _, hlist, hlength, _⟩ := listNames_spec [] names (Nat.zero_le _)
  rw [List.nil_append] at hlist hlength
  rw [listData_eq hlist, List.length_append, List.length_take]
  omega

/-- A listing whose terminator is cut does not end with a newline. -/
theorem cut_terminator {k : Nat} (hpos : 0 < k) (hcut : k < 9) : (listEnd.take k).getLast? ≠ some 10 := by
  have hall : ∀ k ∈ [1, 2, 3, 4, 5, 6, 7, 8], (listEnd.take k).getLast? ≠ some 10 := by decide
  exact hall k (by simp only [List.mem_cons]; omega)

/-- Listings are well framed exactly when no beginning of the names that are shown comes so
close to the size of the buffer that the terminator does not fit. -/
theorem well_framed_iff (names : List Bytes) :
    WellFramed names ↔ ∀ listed, listed <+: shown names →
      ¬ (4087 ≤ (lines listed).length ∧ (lines listed).length ≤ 4094) := by
  have hbuffer : listBufferSize = 4096 := rfl
  have hend : listEnd.length = 9 := rfl
  obtain ⟨listed, hprefix, hlist, hlength, hmax⟩ := listNames_spec [] names (Nat.zero_le _)
  rw [List.nil_append] at hlist hlength
  have hdata := listData_eq hlist
  constructor
  · rintro hframed other hother ⟨hlow, hhigh⟩
    obtain ⟨whole, _, hwhole⟩ := hframed.framed
    -- What is listed is at least as long, so that the terminator is cut.
    have hle : (lines other).length ≤ (lines listed).length := by
      obtain ⟨rest, rfl⟩ := hmax other hother (by rw [List.nil_append]; omega)
      rw [lines, lines, List.flatMap_append, List.length_append]
      exact Nat.le_add_right _ _
    have hcut := cut_terminator (k := listBufferSize - (lines listed).length - 1) (by omega) (by omega)
    have hne : listEnd.take (listBufferSize - (lines listed).length - 1) ≠ [] := by
      rw [Ne, List.take_eq_nil_iff]
      rintro (hzero | hnil)
      · omega
      · rw [hnil] at hend
        cases hend
    have hlast := congrArg List.getLast? (hdata.symm.trans hwhole)
    rw [List.getLast?_append_of_ne_nil _ hne, List.getLast?_append_of_ne_nil _ (by decide)] at hlast
    exact hcut (hlast.trans (by decide))
  · intro hroom
    have hshort : (lines listed).length ≤ 4086 := by
      have hgap := hroom listed hprefix
      omega
    have hwhole : listEnd.take (listBufferSize - (lines listed).length - 1) = listEnd :=
      List.take_of_length_le (by omega)
    rw [hwhole] at hdata
    exact ⟨⟨listed, hprefix.sublist, hdata⟩, length_listData names,
      listSizes_nonneg [] names (Nat.zero_le _)⟩

theorem length_lines (names : List Bytes) : (lines names).length = (names.map fun name => name.length + 1).sum := by
  induction names with
  | nil => rfl
  | cons name names ih =>
    rw [lines_cons, List.length_append, length_line, ih, List.map_cons, List.sum_cons]

/-- Fifteen names of 255 bytes and one of 250. -/
def crowdedDirectory : List Bytes :=
  (List.range 15).map (fun i => UInt8.ofNat (97 + i) :: List.replicate 254 120) ++ [List.replicate 250 121]

/-- Their lines take 4091 bytes, and four bytes of the terminator follow. -/
theorem crowded_directory_cut :
    (∀ name ∈ crowdedDirectory, 1 ≤ name.length ∧ name.length ≤ 255) ∧ crowdedDirectory.Nodup ∧
      listData crowdedDirectory = lines crowdedDirectory ++ ascii "LIST" ∧ ¬ WellFramed crowdedDirectory := by
  have hnames : ∀ name ∈ crowdedDirectory, 250 ≤ name.length ∧ name.length ≤ 255 := by
    intro name hmem
    rcases List.mem_append.mp hmem with hlong | hlast
    · obtain ⟨i, _, rfl⟩ := List.mem_map.mp hlong
      rw [List.length_cons, List.length_replicate]
      omega
    · rw [List.mem_singleton.mp hlast, List.length_replicate]
      omega
  have hshown : shown crowdedDirectory = crowdedDirectory := by
    refine List.filter_eq_self.mpr fun name hmem => ?_
    have hlong := (hnames name hmem).1
    rw [skipped_long (by omega)]
    rfl
  have hlength : (lines crowdedDirectory).length = 4091 := by
    rw [length_lines]
    decide +kernel
  obtain ⟨listed, hprefix, hlist, _, hmax⟩ := listNames_spec [] crowdedDirectory (Nat.zero_le _)
  have hall : crowdedDirectory = listed := by
    rw [hshown] at hprefix hmax
    refine List.IsPrefix.eq_of_length_le (hmax _ (List.prefix_refl _) ?_) hprefix.length_le
    rw [List.nil_append, hlength]
    decide
  have hdata : listData crowdedDirectory = lines crowdedDirectory ++ ascii "LIST" := by
    rw [List.nil_append, ← hall] at hlist
    rw [listData_eq hlist, hlength]
    rfl
  refine ⟨fun name hmem => ?_, by decide +kernel, hdata, fun hframed => ?_⟩
  · have hlen := hnames name hmem
    omega
  obtain ⟨whole, _, hwhole⟩ := hframed.framed
  have hlast := congrArg List.getLast? (hdata.symm.trans hwhole)
  rw [List.getLast?_append_of_ne_nil _ (by decide), List.getLast?_append_of_ne_nil _ (by decide)] at hlast
  revert hlast
  decide

end Stash.Threads
