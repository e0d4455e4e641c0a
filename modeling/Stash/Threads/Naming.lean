import Stash.Sync.FileLocks
import Stash.Threads.Requests
import Stash.Threads.WorkerThread

/-! The three names of a stored file: the path that the worker opens, the key of its lock
and the row of its metadata. -/
namespace Stash.Threads
open Foundation.CText Foundation.Scanf Foundation.Paths Foundation.FileTree Auth Sync.FileLocks

abbrev Username := Word 63

def signupFormat : List Directive := literals (ascii "SIGNUP") ++ [.space, .string 63, .space, .string 255]
def loginFormat : List Directive := literals (ascii "LOGIN") ++ [.space, .string 63, .space, .string 255]

/-- The filename of a command that has one. -/
def Command.filename : Command → Option Bytes
  | .upload filename _ => some filename
  | .download filename => some filename
  | .delete filename => some filename
  | _ => none

/-- The usernames that an account can have are words of at most 63 bytes. -/
theorem signup_username {cmd username password : Bytes} (hcmd : (0 : UInt8) ∉ cmd)
    (h : sscanf signupFormat cmd = [.text username, .text password]) :
    ∃ u : Username, u.text = username := sscanf_isWord hcmd h

theorem login_username {cmd username password : Bytes} (hcmd : (0 : UInt8) ∉ cmd)
    (h : sscanf loginFormat cmd = [.text username, .text password]) :
    ∃ u : Username, u.text = username := sscanf_isWord hcmd h

/-- The filenames that reach a worker are words of at most 255 bytes. -/
theorem parseCommand_filename {cmd filename : Bytes} (hcmd : (0 : UInt8) ∉ cmd)
    (h : (parseCommand cmd).filename = some filename) : ∃ f : Filename, f.text = filename := by
  unfold parseCommand at h
  split at h
  · cases h
  · split at h
    · rename_i hscan
      obtain rfl := Option.some.inj h
      exact sscanf_isWord hcmd hscan
    · split at h
      · rename_i hscan
        obtain rfl := Option.some.inj h
        exact sscanf_isWord hcmd hscan
      · split at h
        · rename_i hscan
          obtain rfl := Option.some.inj h
          exact sscanf_isWord hcmd hscan
        · split at h <;> cases h

def storageDir (cwd : Path) : Path := ascii "storage" :: cwd

/-- Where a path leads that the worker opens for a user and a filename. -/
def target (cwd : Path) (username filename : Bytes) : Path := resolve cwd (filePath username filename)

/-- The row that the metadata operations address: the user's id as they read it, and the
filename. -/
def rowKey (t : Tables) (username filename : Bytes) : Option (Int × Bytes) :=
  (t.userId username).map fun id => (columnInt id, filename)

/-- A name that is one entry of its directory. -/
def isPlain (name : Bytes) : Bool := isName name && !name.contains slash

theorem components_plain {name : Bytes} (h : isPlain name = true) : components name = [name] := by
  apply components_of_no_slash
  simp only [isPlain, Bool.and_eq_true, Bool.not_eq_true', List.contains_eq_mem,
    decide_eq_false_iff_not] at h
  exact h.2

theorem isName_of_isPlain {name : Bytes} (h : isPlain name = true) : isName name = true :=
  (Bool.and_eq_true_iff.mp h).1

private theorem storage_slash : ascii "storage/" = ascii "storage" ++ slash :: [] := by decide

/-- No path of a worker is cut. -/
theorem filePath_eq {username filename : Bytes} (hu : username.length ≤ 63) (hf : filename.length ≤ 255) :
    filePath username filename = ascii "storage" :: (components username ++ components filename) := by
  have hlen : (ascii "storage/" ++ username ++ ascii "/" ++ filename).length < pathSize := by
    have hstorage : (ascii "storage/").length = 8 := by decide
    have hslash : (ascii "/").length = 1 := by decide
    simp only [List.length_append, hstorage, hslash, pathSize]
    omega
  have hsplit : ascii "storage/" ++ username ++ ascii "/" ++ filename =
      ascii "storage" ++ slash :: (username ++ slash :: filename) := by
    rw [storage_slash]
    simp [ascii, slash]
  rw [filePath, snprintf_of_lt hlen, hsplit, components_append_slash, components_append_slash,
    components_of_no_slash (by decide)]
  rfl

theorem userPath_eq {username : Bytes} (hu : username.length ≤ 63) :
    userPath username = ascii "storage" :: components username := by
  have hlen : (ascii "storage/" ++ username).length < pathSize := by
    have hstorage : (ascii "storage/").length = 8 := by decide
    simp only [List.length_append, hstorage, pathSize]
    omega
  rw [userPath, snprintf_of_lt hlen, storage_slash, List.append_assoc, List.cons_append,
    List.nil_append, components_append_slash, components_of_no_slash (by decide)]
  rfl

/-- The target is reached from the storage directory, component by component. -/
theorem target_eq (cwd : Path) {username filename : Bytes} (hu : username.length ≤ 63)
    (hf : filename.length ≤ 255) :
    target cwd username filename =
      resolve (storageDir cwd) (components username ++ components filename) := by
  have hname : isName (ascii "storage") = true := by decide
  rw [target, filePath_eq hu hf, resolve, List.foldl_cons, enter, if_pos hname]
  rfl

theorem target_plain (cwd : Path) {username filename : Bytes} (hu : username.length ≤ 63)
    (hf : filename.length ≤ 255) (hup : isPlain username = true) (hfp : isPlain filename = true) :
    target cwd username filename = filename :: username :: storageDir cwd := by
  rw [target_eq cwd hu hf, components_plain hup, components_plain hfp, resolve_append,
    resolve_name (isName_of_isPlain hup), resolve_name (isName_of_isPlain hfp)]

theorem makeDir_present {cwd : Path} {fs : Fs} {fault : Option Errno} (path : List Bytes)
    (h : (fs.node (resolve cwd path)).isSome) : makeDir fault cwd path fs = fs := by
  unfold makeDir
  split
  · rename_i p hmk
    obtain ⟨hlocate, hnone⟩ := Fs.mkdir_ok (attempt_ok.mp hmk).2
    rw [(Fs.locate_ok.mp hlocate).2.1, Fs.resolve_trimSlashes] at hnone
    rw [hnone] at h
    cases h
  · rfl

/-- Once there is a storage directory, only that of the user can be new. -/
theorem makeDirs_storage {cwd : Path} {fs : Fs} {calls : Calls} {username : Bytes}
    (h : fs.node (storageDir cwd) = some .dir) :
    makeDirs cwd calls username fs = makeDir calls.mkdirUser cwd (userPath username) fs := by
  have hname : isName (ascii "storage") = true := by decide
  have hpath : resolve cwd (components (ascii "storage")) = storageDir cwd := by
    rw [components_of_no_slash (by decide), resolve_name hname]
    rfl
  rw [makeDirs, makeDir_present (components (ascii "storage")) (by rw [hpath, h]; rfl)]

theorem filePath_plain {u : Username} {f : Filename} (hu : isPlain u.text = true) (hf : isPlain f.text = true) :
    filePath u.text f.text = [ascii "storage", u.text, f.text] := by
  rw [filePath_eq u.length_le f.length_le, components_plain hu, components_plain hf]
  rfl

/-- In the directory of the user every call finds the entry of a plain name. -/
theorem locate_plain {cwd : Path} {fs : Fs} {u : Username} {f : Filename} (hu : isPlain u.text = true)
    (hf : isPlain f.text = true) (hstorage : fs.node (storageDir cwd) = some .dir)
    (huser : fs.node (u.text :: storageDir cwd) = some .dir) (special : Errno) :
    fs.locate cwd (filePath u.text f.text) special = .ok (f.text :: u.text :: storageDir cwd) := by
  have hname : isName (ascii "storage") = true := by decide
  refine Fs.locate_ok.mpr ⟨?_, (target_plain cwd u.length_le f.length_le hu hf).symm, fun q hq => ?_⟩
  · rw [filePath_plain hu hf]
    exact isName_of_isPlain hf
  · rw [filePath_plain hu hf] at hq
    simp only [List.dropLast, lookups, hname, isName_of_isPlain hu, if_true, List.mem_cons,
      List.not_mem_nil, or_false] at hq
    rcases hq with rfl | rfl
    · exact hstorage
    · exact huser

/-- Names under one lock are opened under one path. -/
theorem target_of_key (cwd : Path) {u v f g : Bytes} (hu : u.length ≤ 63) (hf : f.length ≤ 255)
    (hv : v.length ≤ 63) (hg : g.length ≤ 255) (h : filepathKey u f = filepathKey v g) :
    target cwd u f = target cwd v g := by
  rw [filepathKey_eq hu hf, filepathKey_eq hv hg] at h
  have hpath : ascii "storage/" ++ u ++ ascii "/" ++ f = ascii "storage/" ++ v ++ ascii "/" ++ g := by
    simpa only [List.append_assoc, List.append_cancel_left_eq] using h
  rw [target, target, filePath, filePath, hpath]

section
variable (cwd : Path) (t : Tables)

/-- Path, lock and row agree on whether two names are those of one file. -/
structure OneFile (u : Username) (f : Filename) (v : Username) (g : Filename) : Prop where
  path_iff_key : target cwd u.text f.text = target cwd v.text g.text ↔
    filepathKey u.text f.text = filepathKey v.text g.text
  key_iff_row : filepathKey u.text f.text = filepathKey v.text g.text ↔
    rowKey t u.text f.text = rowKey t v.text g.text

/-- Where the components of the two names lead from the storage directory. -/
def place (u : Username) (f : Filename) : Path :=
  resolve (storageDir cwd) (components u.text ++ components f.text)

variable {cwd t}

/-- Rows of one user's registration tell filenames apart. -/
theorem filename_of_rowKey {u v f g : Bytes} (hu : (t.userId u).isSome) (h : rowKey t u f = rowKey t v g) :
    f = g := by
  obtain ⟨id, hid⟩ := Option.isSome_iff_exists.mp hu
  rw [rowKey, hid, rowKey] at h
  obtain ⟨_, _, hpair⟩ := Option.map_eq_some_iff.mp h.symm
  exact (Prod.mk.inj hpair).2.symm

theorem username_of_key {u v : Username} {f : Filename}
    (h : filepathKey u.text f.text = filepathKey v.text f.text) : u.text = v.text := by
  rw [filepathKey_eq u.length_le f.length_le, filepathKey_eq v.length_le f.length_le] at h
  simpa only [List.append_assoc, List.append_cancel_left_eq, List.append_cancel_right_eq] using h

/-- The three names agree exactly on names that are the same, or that lead to different places
and to different rows: nothing but the path takes two spellings for one file, and the ids of
two users are the same row only when they agree modulo 2^32. -/
theorem one_file_iff (u v : Username) (f g : Filename) (hu : (t.userId u.text).isSome) :
    OneFile cwd t u f v g ↔
      (u.text = v.text ∧ f.text = g.text) ∨
      (place cwd u f ≠ place cwd v g ∧ rowKey t u.text f.text ≠ rowKey t v.text g.text) := by
  have hplace : (place cwd u f = place cwd v g) ↔
      target cwd u.text f.text = target cwd v.text g.text := by
    rw [target_eq cwd u.length_le f.length_le, target_eq cwd v.length_le g.length_le, place, place]
  constructor
  · intro h
    by_cases hp : place cwd u f = place cwd v g
    · have hkey := h.path_iff_key.mp (hplace.mp hp)
      have hfile := filename_of_rowKey hu (h.key_iff_row.mp hkey)
      rw [← hfile] at hkey
      exact .inl ⟨username_of_key hkey, hfile⟩
    · have hkey := mt h.path_iff_key.mpr (mt hplace.mpr hp)
      exact .inr ⟨hp, mt h.key_iff_row.mpr hkey⟩
  · rintro (⟨hname, hfile⟩ | ⟨hp, hrow⟩)
    · constructor
      · rw [hname, hfile]
        exact iff_of_true rfl rfl
      · rw [hname, hfile]
        exact iff_of_true rfl rfl
    · -- Different paths have different keys.
      have htarget := mt hplace.mpr hp
      have hkey := mt (target_of_key cwd u.length_le f.length_le v.length_le g.length_le) htarget
      exact ⟨iff_of_false htarget hkey, iff_of_false hkey hrow⟩

def accounts : Tables := ⟨[⟨1, ascii "alice", [], 0, 104857600⟩, ⟨2, ascii "bob", [], 0, 104857600⟩], []⟩

def nameAlice : Username := ⟨ascii "alice", by decide, by decide, by decide +kernel, by decide⟩
def nameBob : Username := ⟨ascii "bob", by decide, by decide, by decide +kernel, by decide⟩
def report : Filename := ⟨ascii "report", by decide, by decide, by decide +kernel, by decide⟩
def dottedReport : Filename := ⟨ascii "./report", by decide, by decide, by decide +kernel, by decide⟩

theorem accounts_schema : accounts.Schema := ⟨by decide, by decide, by decide⟩

theorem one_file_alice_bob :
    OneFile [] accounts nameAlice report nameBob report ↔
      (nameAlice.text = nameBob.text ∧ report.text = report.text) ∨
      (place [] nameAlice report ≠ place [] nameBob report ∧
        rowKey accounts nameAlice.text report.text ≠ rowKey accounts nameBob.text report.text) :=
  one_file_iff nameAlice nameBob report report (by decide)

/-- One path under two keys and two rows. -/
theorem dotted_name_aliases :
    (accounts.userId nameAlice.text).isSome ∧
      target [] nameAlice.text report.text = target [] nameAlice.text dottedReport.text ∧
      filepathKey nameAlice.text report.text ≠ filepathKey nameAlice.text dottedReport.text ∧
      rowKey accounts nameAlice.text report.text ≠ rowKey accounts nameAlice.text dottedReport.text ∧
      ¬ OneFile [] accounts nameAlice report nameAlice dottedReport := by
  have hpath : target [] nameAlice.text report.text = target [] nameAlice.text dottedReport.text := by decide
  have hkey : filepathKey nameAlice.text report.text ≠ filepathKey nameAlice.text dottedReport.text := by decide
  exact ⟨by decide, hpath, hkey, by decide, fun h => hkey (h.path_iff_key.mp hpath)⟩

/-- Plain names always agree. -/
theorem place_plain_inj {u v : Username} {f g : Filename} (hu : isPlain u.text = true)
    (hv : isPlain v.text = true) (hf : isPlain f.text = true) (hg : isPlain g.text = true)
    (h : place cwd u f = place cwd v g) : u.text = v.text ∧ f.text = g.text := by
  rw [place, place, ← target_eq cwd u.length_le f.length_le, ← target_eq cwd v.length_le g.length_le,
    target_plain cwd u.length_le f.length_le hu hf, target_plain cwd v.length_le g.length_le hv hg] at h
  obtain ⟨hfile, hrest⟩ := List.cons.inj h
  exact ⟨(List.cons.inj hrest).1, hfile⟩

end

end Stash.Threads
