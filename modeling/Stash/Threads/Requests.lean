import Stash.Threads.ClientThread

/-! The documented commands of the file phase as the client writes them, and what the
parser of the file operation loop makes of them. -/
namespace Stash.Threads
open Foundation.CText Foundation.Scanf Utils.NetworkUtils

abbrev Filename := Word 255

/-- An `UPLOAD` line: a filename and the decimal digits of a size. -/
structure UploadHeader where
  filename : Filename
  digits : Bytes
  digits_ne : digits ≠ []
  digits_only : ∀ c ∈ digits, isdigit c = true

def UploadHeader.size (header : UploadHeader) : Nat := digitsValue header.digits

def UploadHeader.line (header : UploadHeader) : Bytes :=
  ascii "UPLOAD " ++ header.filename.text ++ ascii " " ++ header.digits ++ ascii "\n"

def downloadLine (filename : Filename) : Bytes := ascii "DOWNLOAD " ++ filename.text ++ ascii "\n"
def deleteLine (filename : Filename) : Bytes := ascii "DELETE " ++ filename.text ++ ascii "\n"
def listLine : Bytes := ascii "LIST\n"
def quitLine : Bytes := ascii "QUIT\n"

theorem isdigit_ne_nul {c : UInt8} (h : isdigit c = true) : c ≠ 0 := by
  rintro rfl
  exact absurd h (by decide)

theorem UploadHeader.no_nul (header : UploadHeader) : (0 : UInt8) ∉ header.line := by
  simp only [line, List.mem_append, not_or]
  refine ⟨⟨⟨⟨by decide, header.filename.no_nul⟩, by decide⟩, fun h => ?_⟩, by decide⟩
  exact isdigit_ne_nul (header.digits_only 0 h) rfl

theorem not_startsWith {word text : Bytes} (h : ¬ word <+: text) : startsWith word text = false := by
  rw [startsWith, Bool.eq_false_iff]
  exact fun hp => h (List.isPrefixOf_iff_prefix.mp hp)

private theorem skipSpace_space (rest : Bytes) : skipSpace (ascii " " ++ rest) = skipSpace rest := rfl

private theorem skipSpace_word {width : Nat} (word : Word width) (rest : Bytes) :
    skipSpace (word.text ++ rest) = word.text ++ rest := by
  obtain ⟨text, hne, _, hword, _⟩ := word
  cases text with
  | nil => exact absurd rfl hne
  | cons c text => simp [skipSpace, hword c (by simp)]

/-- A word behind one space is read by the directives for white space and a word. -/
theorem sscanf_word {width : Nat} (word : Word width) (format : List Directive) (rest : Bytes)
    (hrest : ∀ c ∈ rest.head?, isspace c = true) :
    sscanf (.space :: .string width :: format) (ascii " " ++ (word.text ++ rest)) =
      .text word.text :: sscanf format rest := by
  simp only [sscanf, skipSpace_space, skipSpace_word, scanString_word word hrest]

theorem sscanf_size {digits : Bytes} (hne : digits ≠ []) (hdigits : ∀ c ∈ digits, isdigit c = true)
    {rest : Bytes} (hrest : ∀ c ∈ rest.head?, isdigit c = false) :
    sscanf [.space, .size] (ascii " " ++ (digits ++ rest)) = [.size (strtoul false digits)] := by
  have hskip : skipSpace (digits ++ rest) = digits ++ rest := by
    cases digits with
    | nil => exact absurd rfl hne
    | cons d digits => simp [skipSpace, isspace_of_isdigit (hdigits d (by simp))]
  simp only [sscanf, skipSpace_space, hskip, scanSize_digits hne hdigits hrest]

/-- Digits behind a word and a space make an upload, whatever follows them. -/
theorem parseCommand_upload (filename : Filename) {digits rest : Bytes} (hne : digits ≠ [])
    (hdigits : ∀ c ∈ digits, isdigit c = true) (hrest : ∀ c ∈ rest.head?, isdigit c = false) :
    parseCommand (ascii "UPLOAD " ++ filename.text ++ ascii " " ++ digits ++ rest) =
      .upload filename.text (strtoul false digits) := by
  have hsplit : ascii "UPLOAD " = ascii "UPLOAD" ++ ascii " " := by decide
  simp only [hsplit, List.append_assoc]
  have hquit : startsWith (ascii "QUIT") (ascii "UPLOAD" ++
      (ascii " " ++ (filename.text ++ (ascii " " ++ (digits ++ rest))))) = false :=
    not_startsWith (not_prefix_append (by decide) _)
  have hscan := sscanf_word filename [.space, .size] (ascii " " ++ (digits ++ rest))
    (by simp [ascii, isspace])
  rw [sscanf_size hne hdigits hrest] at hscan
  simp only [parseCommand, hquit, uploadFormat, sscanf_literals_append, hscan]
  simp

theorem parseCommand_header (header : UploadHeader) (rest : Bytes) :
    parseCommand (header.line ++ rest) =
      .upload header.filename.text (strtoul false header.digits) := by
  rw [UploadHeader.line, List.append_assoc]
  exact parseCommand_upload _ header.digits_ne header.digits_only (by simp [ascii, isdigit])

theorem parseCommand_download_append (filename : Filename) (rest : Bytes) :
    parseCommand (downloadLine filename ++ rest) = .download filename.text := by
  have hsplit : ascii "DOWNLOAD " = ascii "DOWNLOAD" ++ ascii " " := by decide
  simp only [downloadLine, hsplit, List.append_assoc]
  have hquit : startsWith (ascii "QUIT") (ascii "DOWNLOAD" ++
      (ascii " " ++ (filename.text ++ (ascii "\n" ++ rest)))) = false :=
    not_startsWith (not_prefix_append (by decide) _)
  have hup : sscanf uploadFormat (ascii "DOWNLOAD" ++
      (ascii " " ++ (filename.text ++ (ascii "\n" ++ rest)))) = [] :=
    sscanf_literals_mismatch _ (not_prefix_append (by decide) _)
  have hscan := sscanf_word filename [] (ascii "\n" ++ rest) (by simp [ascii, isspace])
  simp only [parseCommand, hquit, hup, downloadFormat, sscanf_literals_append, hscan]
  simp [sscanf]

theorem parseCommand_download (filename : Filename) :
    parseCommand (downloadLine filename) = .download filename.text := by
  simpa using parseCommand_download_append filename []

theorem parseCommand_delete_append (filename : Filename) (rest : Bytes) :
    parseCommand (deleteLine filename ++ rest) = .delete filename.text := by
  have hsplit : ascii "DELETE " = ascii "DELETE" ++ ascii " " := by decide
  simp only [deleteLine, hsplit, List.append_assoc]
  have hquit : startsWith (ascii "QUIT") (ascii "DELETE" ++
      (ascii " " ++ (filename.text ++ (ascii "\n" ++ rest)))) = false :=
    not_startsWith (not_prefix_append (by decide) _)
  have hup : sscanf uploadFormat (ascii "DELETE" ++
      (ascii " " ++ (filename.text ++ (ascii "\n" ++ rest)))) = [] :=
    sscanf_literals_mismatch _ (not_prefix_append (by decide) _)
  have hdown : sscanf downloadFormat (ascii "DELETE" ++
      (ascii " " ++ (filename.text ++ (ascii "\n" ++ rest)))) = [] :=
    sscanf_literals_mismatch _ (not_prefix_append (by decide) _)
  have hscan := sscanf_word filename [] (ascii "\n" ++ rest) (by simp [ascii, isspace])
  simp only [parseCommand, hquit, hup, hdown, deleteFormat, sscanf_literals_append, hscan]
  simp [sscanf]

theorem parseCommand_delete (filename : Filename) :
    parseCommand (deleteLine filename) = .delete filename.text := by
  simpa using parseCommand_delete_append filename []

theorem parseCommand_list_append (rest : Bytes) : parseCommand (listLine ++ rest) = .list := by
  have hquit : startsWith (ascii "QUIT") (listLine ++ rest) = false :=
    not_startsWith (not_prefix_append (by decide) _)
  have hup : sscanf uploadFormat (listLine ++ rest) = [] :=
    sscanf_literals_mismatch _ (not_prefix_append (by decide) _)
  have hdown : sscanf downloadFormat (listLine ++ rest) = [] :=
    sscanf_literals_mismatch _ (not_prefix_append (by decide) _)
  have hdelete : sscanf deleteFormat (listLine ++ rest) = [] :=
    sscanf_literals_mismatch _ (not_prefix_append (by decide) _)
  have hlist : startsWith (ascii "LIST") (listLine ++ rest) = true := rfl
  simp only [parseCommand, hquit, hup, hdown, hdelete, hlist]
  simp

theorem parseCommand_quit_append (rest : Bytes) : parseCommand (quitLine ++ rest) = .quit := by
  have hquit : startsWith (ascii "QUIT") (quitLine ++ rest) = true := rfl
  simp [parseCommand, hquit]

end Stash.Threads
