import Stash.Threads.Segmentation

/-! The documented grammar of the file commands beside the lines that the chain of `sscanf` and
`strncmp` takes for a command. -/
namespace Stash.Threads
open Foundation.CText Foundation.Scanf Utils.NetworkUtils

/-- The commands that the protocol describes: one separator, tokens that fit, end of line. -/
inductive Documented : Bytes → Command → Prop
  | upload (header : UploadHeader) (h : header.size < 2 ^ 64) :
      Documented header.line (.upload header.filename.text (UInt64.ofNat header.size))
  | download (filename : Filename) : Documented (downloadLine filename) (.download filename.text)
  | delete (filename : Filename) : Documented (deleteLine filename) (.delete filename.text)
  | list : Documented listLine .list
  | quit : Documented quitLine .quit

/-- The lines with a command in them: `QUIT` and `LIST` as a prefix, a word anywhere behind the
other keywords, and behind the first 255 bytes of a name, or behind white space, a number. -/
inductive Recognised : Bytes → Prop
  | quit (rest : Bytes) : Recognised (ascii "QUIT" ++ rest)
  | upload (before gap sign after : Bytes) (name : Filename) (d : UInt8) (hbefore : Blank before)
      (hgap : Blank gap) (hcut : gap = [] → name.text.length = 255)
      (hsign : sign = [] ∨ sign = [43] ∨ sign = [45]) (hd : isdigit d = true) :
      Recognised (ascii "UPLOAD" ++ (before ++ (name.text ++ (gap ++ (sign ++ d :: after)))))
  | download (rest : Bytes) (h : ¬ Blank rest) : Recognised (ascii "DOWNLOAD" ++ rest)
  | delete (rest : Bytes) (h : ¬ Blank rest) : Recognised (ascii "DELETE" ++ rest)
  | list (rest : Bytes) : Recognised (ascii "LIST" ++ rest)

/-- The two formats with one word behind the keyword. -/
theorem sscanf_keyword_word {keyword text : Bytes} :
    (∃ filename, sscanf (literals keyword ++ [.space, .string 255]) text = [.text filename]) ↔
      ∃ rest, text = keyword ++ rest ∧ ¬ Blank rest := by
  constructor
  · rintro ⟨filename, h⟩
    by_cases hp : keyword <+: text
    · obtain ⟨rest, rfl⟩ := hp
      refine ⟨rest, rfl, fun hblank => ?_⟩
      rw [sscanf_literals_append] at h
      simp [sscanf, scanString_skipSpace, (scanString_eq_none (show 0 < 255 by omega)).mpr hblank] at h
    · rw [sscanf_literals_mismatch _ hp] at h
      cases h
  · rintro ⟨rest, rfl, hblank⟩
    cases hscan : scanString 255 rest with
    | none => exact absurd ((scanString_eq_none (show 0 < 255 by omega)).mp hscan) hblank
    | some read =>
      refine ⟨read.1, ?_⟩
      rw [sscanf_literals_append]
      simp [sscanf, scanString_skipSpace, hscan]

private theorem sscanf_upload_some {text name rest : Bytes} {rest' : Bytes} {n : UInt64}
    (hword : scanString 255 text = some (name, rest)) (hsize : scanSize rest = some (n, rest')) :
    sscanf uploadFormat (ascii "UPLOAD" ++ text) = [.text name, .size n] := by
  rw [uploadFormat, sscanf_literals_append]
  simp [sscanf, scanString_skipSpace, scanSize_skipSpace, hword, hsize]

/-- The upload format: a word, and behind it a number. -/
theorem sscanf_upload {text : Bytes} :
    (∃ filename filesize, sscanf uploadFormat text = [.text filename, .size filesize]) ↔
      ∃ fields name rest, text = ascii "UPLOAD" ++ fields ∧ scanString 255 fields = some (name, rest) ∧
        scanSize rest ≠ none := by
  constructor
  · rintro ⟨filename, filesize, h⟩
    by_cases hp : ascii "UPLOAD" <+: text
    · obtain ⟨fields, rfl⟩ := hp
      rw [uploadFormat, sscanf_literals_append] at h
      simp only [sscanf, scanString_skipSpace, scanSize_skipSpace] at h
      cases hscan : scanString 255 fields with
      | none => simp [hscan] at h
      | some read =>
        refine ⟨fields, read.1, read.2, rfl, hscan, fun hnone => ?_⟩
        simp [hscan, hnone] at h
    · rw [uploadFormat, sscanf_literals_mismatch _ hp] at h
      cases h
  · rintro ⟨fields, name, rest, rfl, hword, hsize⟩
    obtain ⟨⟨n, rest'⟩, hread⟩ := Option.ne_none_iff_exists'.mp hsize
    exact ⟨name, n, sscanf_upload_some hword hread⟩

theorem startsWith_iff {word text : Bytes} : startsWith word text = true ↔ ∃ rest, text = word ++ rest := by
  rw [startsWith, List.isPrefixOf_iff_prefix]
  exact exists_congr fun rest => eq_comm

/-- The parser gives up where none of its comparisons succeeds. -/
theorem parseCommand_invalid_iff {text : Bytes} :
    parseCommand text = .invalid ↔
      ¬ startsWith (ascii "QUIT") text = true ∧
      (¬ ∃ filename filesize, sscanf uploadFormat text = [.text filename, .size filesize]) ∧
      (¬ ∃ filename, sscanf downloadFormat text = [.text filename]) ∧
      (¬ ∃ filename, sscanf deleteFormat text = [.text filename]) ∧
      ¬ startsWith (ascii "LIST") text = true := by
  unfold parseCommand
  split
  · rename_i hquit
    simp [hquit]
  · rename_i hquit
    split
    · rename_i filename filesize hupload
      simp [hupload]
    · rename_i hupload
      split
      · rename_i filename hdownload
        simp [hdownload]
      · rename_i hdownload
        split
        · rename_i filename hdelete
          simp [hdelete]
        · rename_i hdelete
          split
          · rename_i hlist
            simp [hlist]
          · rename_i hlist
            refine iff_of_true rfl ⟨hquit, ?_, ?_, ?_, hlist⟩
            · exact fun ⟨filename, filesize, h⟩ => hupload filename filesize h
            · exact fun ⟨filename, h⟩ => hdownload filename h
            · exact fun ⟨filename, h⟩ => hdelete filename h

/-- What `%255s %zu` reads behind the keyword is a name and a number as `Recognised` has them. -/
theorem recognised_fields {fields : Bytes} (hnul : (0 : UInt8) ∉ fields) :
    (∃ name rest, scanString 255 fields = some (name, rest) ∧ scanSize rest ≠ none) ↔
      ∃ before gap sign after, ∃ name : Filename, ∃ d, fields = before ++ (name.text ++ (gap ++ (sign ++ d :: after))) ∧
        Blank before ∧ Blank gap ∧ (gap = [] → name.text.length = 255) ∧
        (sign = [] ∨ sign = [43] ∨ sign = [45]) ∧ isdigit d = true := by
  constructor
  · rintro ⟨text, rest, hword, hsize⟩
    obtain ⟨name, rfl⟩ := scanString_isWord hnul hword
    obtain ⟨before, hfields, hbefore, _, _, hle, hstop⟩ := scanString_spec hword
    obtain ⟨gap, sign, d, after, rfl, hgap, hsign, hd⟩ := scanSize_ne_none.mp hsize
    refine ⟨before, gap, sign, after, name, d, hfields, hbefore, hgap, fun hnil => ?_, hsign, hd⟩
    -- The name ended at the width: what stands behind it is no white space.
    by_contra hshort
    have hspace := hstop (by omega)
    subst hnil
    rcases hsign with rfl | rfl | rfl
    · have hdigit := hspace d rfl
      rw [isspace_of_isdigit hd] at hdigit
      cases hdigit
    · exact absurd (hspace 43 rfl) (by decide)
    · exact absurd (hspace 45 rfl) (by decide)
  · rintro ⟨before, gap, sign, after, name, d, rfl, hbefore, hgap, hcut, hsign, hd⟩
    refine ⟨name.text, gap ++ (sign ++ d :: after), ?_, scanSize_ne_none.mpr ⟨gap, sign, d, after, rfl, hgap, hsign, hd⟩⟩
    rw [← scanString_skipSpace, skipSpace_append hbefore, scanString_skipSpace]
    cases gap with
    | nil => exact scanString_full name (hcut rfl) _
    | cons c gap =>
      apply scanString_word name
      intro b hb
      obtain rfl := Option.some.inj hb
      exact hgap _ (List.mem_cons_self ..)

/-- The parser finds a command in exactly the lines of `Recognised`. -/
theorem parseCommand_ne_invalid {text : Bytes} (hnul : (0 : UInt8) ∉ text) :
    parseCommand text ≠ .invalid ↔ Recognised text := by
  rw [ne_eq, parseCommand_invalid_iff, sscanf_upload, downloadFormat, deleteFormat, sscanf_keyword_word,
    sscanf_keyword_word, startsWith_iff, startsWith_iff]
  constructor
  · intro h
    by_contra hnone
    refine h ⟨?_, ?_, ?_, ?_, ?_⟩
    · rintro ⟨rest, rfl⟩
      exact hnone (.quit rest)
    · rintro ⟨fields, name, rest, rfl, hfields⟩
      have hfree : (0 : UInt8) ∉ fields := fun h0 => hnul (List.mem_append_right _ h0)
      obtain ⟨before, gap, sign, after, name, d, rfl, hbefore, hgap, hcut, hsign, hd⟩ :=
        (recognised_fields hfree).mp ⟨_, _, hfields⟩
      exact hnone (.upload before gap sign after name d hbefore hgap hcut hsign hd)
    · rintro ⟨rest, rfl, hblank⟩
      exact hnone (.download rest hblank)
    · rintro ⟨rest, rfl, hblank⟩
      exact hnone (.delete rest hblank)
    · rintro ⟨rest, rfl⟩
      exact hnone (.list rest)
  · rintro h ⟨hquit, hupload, hdownload, hdelete, hlist⟩
    cases h with
    | quit rest => exact hquit ⟨rest, rfl⟩
    | upload before gap sign after name d hbefore hgap hcut hsign hd =>
      have hfree : (0 : UInt8) ∉ before ++ (name.text ++ (gap ++ (sign ++ d :: after))) :=
        fun h0 => hnul (List.mem_append_right _ h0)
      obtain ⟨word, rest, hfields⟩ := (recognised_fields hfree).mpr
        ⟨before, gap, sign, after, name, d, rfl, hbefore, hgap, hcut, hsign, hd⟩
      exact hupload ⟨_, word, rest, rfl, hfields⟩
    | download rest hblank => exact hdownload ⟨rest, rfl, hblank⟩
    | delete rest hblank => exact hdelete ⟨rest, rfl, hblank⟩
    | list rest => exact hlist ⟨rest, rfl⟩

theorem strtoul_of_lt {digits : Bytes} (h : digitsValue digits < 2 ^ 64) :
    strtoul false digits = UInt64.ofNat (digitsValue digits) := by
  rw [strtoul, if_neg (Nat.not_le.mpr h)]
  rfl

theorem Documented.ne_invalid {line : Bytes} {command : Command} (h : Documented line command) :
    command ≠ .invalid := by
  cases h with
  | upload header hsize => simp
  | download filename => simp
  | delete filename => simp
  | list => simp
  | quit => simp

/-- A documented line is read as what it says, whatever arrives behind it. -/
theorem Documented.parse {line : Bytes} {command : Command} (h : Documented line command) (rest : Bytes) :
    parseCommand (cstr (line ++ rest)) = command := by
  cases h with
  | upload header hsize =>
    rw [cstr_append header.no_nul, parseCommand_header, strtoul_of_lt hsize]
    rfl
  | download filename => rw [cstr_append (downloadLine_no_nul filename), parseCommand_download_append]
  | delete filename => rw [cstr_append (deleteLine_no_nul filename), parseCommand_delete_append]
  | list => rw [cstr_append (by decide), parseCommand_list_append]
  | quit => rw [cstr_append (by decide), parseCommand_quit_append]

/-- A command with its newline. -/
structure CommandLine where
  body : Bytes
  no_newline : (10 : UInt8) ∉ body

def CommandLine.text (line : CommandLine) : Bytes := line.body ++ ascii "\n"

/-- The kind of task, the filename and the size that a command asks for. -/
def Command.asks : Command → Option (TaskType × Bytes × UInt64)
  | .upload filename filesize => some (.upload, filename, filesize)
  | .download filename => some (.download, filename, 0)
  | .delete filename => some (.delete, filename, 0)
  | .list => some (.list, [], 0)
  | .quit => none
  | .invalid => none

def Task.asked (task : Task) : TaskType × Bytes × UInt64 := (task.type, task.filename, task.filesize)

def goodbye : Output := .sent (ascii "Goodbye!\n")

/-- Neither the quota nor memory nor the network nor a full queue keeps the command back. -/
def Willing (env : Env) (chunk : Bytes) (l : Loop) : Command → Prop
  | .upload _ filesize =>
    env.checkQuota l.output filesize = true ∧ env.malloc l.output filesize = true ∧
      (∃ data input, receiveUpload filesize.toNat chunk l.input = (.ok data, input)) ∧
      ∀ task, env.push l.output task = true
  | .download _ | .delete _ | .list => ∀ task, env.push l.output task = true
  | .quit | .invalid => True

/-- What the loop does on a line is what the grammar says: a task with exactly the tokens of
the line, the end of the connection, or the error and nothing else. -/
structure Obeys (env : Env) (line : CommandLine) (chunk : Bytes) (l : Loop) (next : Next) : Prop where
  queued_only : ∀ task, .queued task ∈ next.loop.output.drop l.output.length →
    ∃ command, Documented line.text command ∧ command.asks = some task.asked
  queued : ∀ command asked, Documented line.text command → command.asks = some asked →
    Willing env chunk l command → ∃ task, .queued task ∈ next.loop.output.drop l.output.length ∧ task.asked = asked
  quits : next = .disconnect (l.emit goodbye) ↔ Documented line.text .quit
  refused : (∀ command, ¬ Documented line.text command) → next = .again (l.emit invalidReply)

/-- The loop obeys the grammar on a line that one `recv` finds, with `rest` right behind it. -/
def TakenAsDocumented (client : Client) (line : CommandLine) (rest : Bytes) : Prop :=
  ∀ (env : Env) (l : Loop) (input : Input), recv (commandSize - 1) l.input = (.data (line.text ++ rest), input) →
    Obeys env line (line.text ++ rest) (l.rest input) (iteration env client l)

theorem sendResponseMessage_sent (env : Env) (l : Loop) (message : Bytes) :
    ∃ texts : List Bytes, (sendResponseMessage env l message).loop.output = l.output ++ texts.map Output.sent := by
  unfold sendResponseMessage
  split
  · split
    · exact ⟨[message], rfl⟩
    · exact ⟨[message], rfl⟩
  · exact ⟨[], by simp [Next.loop]⟩

theorem sendResponse_sent (env : Env) (l : Loop) :
    ∃ texts : List Bytes, (sendResponse env l).loop.output = l.output ++ texts.map Output.sent := by
  unfold sendResponse
  simp only
  split
  · exact ⟨[], by simp [Next.loop]⟩
  · split
    · split
      · exact ⟨[(env.response l.output).data], rfl⟩
      · obtain ⟨texts, htexts⟩ := sendResponseMessage_sent env (l.emit (.sent (env.response l.output).data))
          (env.response l.output).message
        refine ⟨(env.response l.output).data :: texts, ?_⟩
        rw [htexts]
        simp
    · exact sendResponseMessage_sent env l _

/-- A task is queued first, or the client is told that the server is busy. -/
theorem submit_outputs (env : Env) (l : Loop) (t : Task) :
    ∃ (o : Output) (texts : List Bytes), (submit env l t).loop.output = l.output ++ o :: texts.map Output.sent ∧
      if env.push l.output t then o = .queued t else ∃ text, o = .sent text ∧ o ≠ goodbye := by
  unfold submit
  split
  · obtain ⟨texts, htexts⟩ := sendResponse_sent env (l.emit (.queued t))
    refine ⟨.queued t, texts, ?_, rfl⟩
    rw [htexts]
    simp
  · exact ⟨_, [], rfl, _, rfl, by decide⟩

theorem submit_queued_only {env : Env} {l : Loop} {t task : Task}
    (h : .queued task ∈ (submit env l t).loop.output.drop l.output.length) : task = t := by
  obtain ⟨o, texts, hout, hfirst⟩ := submit_outputs env l t
  rw [hout, List.drop_left] at h
  rcases List.mem_cons.mp h with rfl | hmem
  · split at hfirst
    · exact Output.queued.inj hfirst
    · obtain ⟨text, htext, _⟩ := hfirst
      cases htext
  · obtain ⟨text, _, htext⟩ := List.mem_map.mp hmem
    cases htext

theorem submit_willing {env : Env} {l : Loop} {t : Task} (hpush : env.push l.output t = true) :
    .queued t ∈ (submit env l t).loop.output.drop l.output.length := by
  obtain ⟨o, texts, hout, hfirst⟩ := submit_outputs env l t
  rw [if_pos hpush] at hfirst
  rw [hout, List.drop_left, hfirst]
  exact List.mem_cons_self ..

theorem submit_ne_goodbye (env : Env) {l : Loop} {t : Task} {input : Input} :
    submit env l t ≠ .disconnect ⟨input, l.output ++ [goodbye]⟩ := by
  intro h
  obtain ⟨o, texts, hout, hfirst⟩ := submit_outputs env l t
  rw [h] at hout
  have ho := (List.cons.inj (List.append_cancel_left hout)).1
  split at hfirst
  · rw [hfirst] at ho
    cases ho
  · obtain ⟨_, _, hne⟩ := hfirst
    exact hne ho.symm

/-- Only the task that the parsed command asks for is queued. -/
theorem handleCommand_queued_only {env : Env} {client : Client} {chunk : Bytes} {l : Loop} {task : Task}
    (h : .queued task ∈ (handleCommand env client chunk l).loop.output.drop l.output.length) :
    (parseCommand (cstr chunk)).asks = some task.asked := by
  unfold handleCommand at h
  cases hparse : parseCommand (cstr chunk) with
  | quit => simp [hparse, Next.loop] at h
  | upload filename filesize =>
    simp only [hparse] at h
    split at h
    · simp [Next.loop] at h
    · split at h
      · simp [Next.loop] at h
      · unfold queueUpload at h
        split at h
        · simp [Next.loop] at h
        · rename_i data input _
          have htask : task = Threads.task client .upload filename filesize (some data) :=
            submit_queued_only (l := l.rest input) h
          rw [htask]
          rfl
  | download filename =>
    simp only [hparse] at h
    rw [submit_queued_only h]
    rfl
  | delete filename =>
    simp only [hparse] at h
    rw [submit_queued_only h]
    rfl
  | list =>
    simp only [hparse] at h
    rw [submit_queued_only h]
    rfl
  | invalid => simp [hparse, Next.loop] at h

/-- The task that the parsed command asks for is queued when nothing stands in the way. -/
theorem handleCommand_queued {env : Env} (client : Client) {chunk : Bytes} {l : Loop}
    {asked : TaskType × Bytes × UInt64} (hasks : (parseCommand (cstr chunk)).asks = some asked)
    (hwilling : Willing env chunk l (parseCommand (cstr chunk))) :
    ∃ task, .queued task ∈ (handleCommand env client chunk l).loop.output.drop l.output.length ∧
      task.asked = asked := by
  unfold handleCommand
  cases hparse : parseCommand (cstr chunk) with
  | quit => simp [hparse, Command.asks] at hasks
  | upload filename filesize =>
    rw [hparse] at hasks hwilling
    obtain ⟨hquota, hmalloc, ⟨data, input, hreceived⟩, hpush⟩ := hwilling
    simp only [hquota, hmalloc, Bool.not_true, if_neg Bool.false_ne_true, hreceived, queueUpload]
    refine ⟨task client .upload filename filesize (some data), ?_, Option.some.inj hasks⟩
    exact submit_willing (l := l.rest input) (hpush _)
  | download filename =>
    rw [hparse] at hasks hwilling
    exact ⟨_, submit_willing (hwilling _), Option.some.inj hasks⟩
  | delete filename =>
    rw [hparse] at hasks hwilling
    exact ⟨_, submit_willing (hwilling _), Option.some.inj hasks⟩
  | list =>
    rw [hparse] at hasks hwilling
    exact ⟨_, submit_willing (hwilling _), Option.some.inj hasks⟩
  | invalid => simp [hparse, Command.asks] at hasks

theorem handleCommand_goodbye {env : Env} {client : Client} {chunk : Bytes} {l : Loop} :
    handleCommand env client chunk l = .disconnect (l.emit goodbye) ↔ parseCommand (cstr chunk) = .quit := by
  unfold handleCommand
  cases parseCommand (cstr chunk) with
  | quit => exact iff_of_true rfl rfl
  | upload filename filesize =>
    refine iff_of_false ?_ (by simp)
    simp only
    split
    · simp
    · split
      · simp
      · unfold queueUpload
        split
        · simp
        · exact submit_ne_goodbye env
  | download filename => exact iff_of_false (submit_ne_goodbye env) (by simp)
  | delete filename => exact iff_of_false (submit_ne_goodbye env) (by simp)
  | list => exact iff_of_false (submit_ne_goodbye env) (by simp)
  | invalid => exact iff_of_false (by simp) (by simp)

theorem CommandLine.text_append_ne_nil (line : CommandLine) (rest : Bytes) : line.text ++ rest ≠ [] := by
  simp [text, ascii]

/-- A rest of the server in which no upload is accepted and no task is taken. -/
def busyEnv : Env where
  checkQuota _ _ := false
  malloc _ _ := false
  malloc_bound _ _ h := by cases h
  push _ _ := false
  response _ := ⟨.success, [], []⟩
  isActive _ := true
  taken _ _ := 0

/-- A line is taken as the grammar has it exactly when it is documented or nothing is
recognised in it. -/
theorem taken_as_documented_iff (client : Client) (line : CommandLine) (rest : Bytes)
    (hfits : (line.text ++ rest).length < commandSize) :
    TakenAsDocumented client line rest ↔
      (∃ command, Documented line.text command) ∨ ¬ Recognised (cstr (line.text ++ rest)) := by
  rw [← parseCommand_ne_invalid (no_nul_cstr _), not_ne_iff]
  constructor
  · intro h
    by_contra hnone
    obtain ⟨hundocumented, hparse⟩ := not_or.mp hnone
    have hrecv : recv (commandSize - 1) [.data (line.text ++ rest)] = (.data (line.text ++ rest), []) := by
      have hle : (line.text ++ rest).length ≤ commandSize - 1 := by omega
      rw [recv_data (line.text_append_ne_nil rest), if_pos hle, List.take_of_length_le hle]
    have hrefused := (h busyEnv ⟨_, []⟩ [] hrecv).refused (not_exists.mp hundocumented)
    rw [iteration_data busyEnv client hrecv (line.text_append_ne_nil rest)] at hrefused
    obtain ⟨o, hne, ho⟩ := handleCommand_recognised busyEnv client (Loop.rest ⟨_, []⟩ []) hparse
    rw [hrefused] at ho
    simp [Next.loop] at ho
    exact hne ho
  · intro h env l input hrecv
    rw [iteration_data env client hrecv (line.text_append_ne_nil rest)]
    rcases h with ⟨command, hdocumented⟩ | hinvalid
    · have hparse := hdocumented.parse rest
      refine ⟨fun task htask => ⟨command, hdocumented, ?_⟩, ?_, ?_, fun hnone => absurd hdocumented (hnone command)⟩
      · rw [← hparse]
        exact handleCommand_queued_only htask
      · intro command' asked hdocumented' hasks hwilling
        rw [← hdocumented'.parse rest] at hasks hwilling
        exact handleCommand_queued client hasks hwilling
      · rw [handleCommand_goodbye, hparse]
        constructor
        · rintro rfl
          exact hdocumented
        · exact fun hquit => hparse.symm.trans (hquit.parse rest)
    · have hundocumented : ∀ command, ¬ Documented line.text command := by
        intro command hdocumented
        exact hdocumented.ne_invalid ((hdocumented.parse rest).symm.trans hinvalid)
      refine ⟨fun task htask => ?_, ?_, ?_, fun _ => ?_⟩
      · have hasks := handleCommand_queued_only htask
        rw [hinvalid] at hasks
        cases hasks
      · exact fun command _ hdocumented => absurd hdocumented (hundocumented command)
      · rw [handleCommand_goodbye, hinvalid]
        exact iff_of_false (by simp) (hundocumented .quit)
      · simp only [handleCommand, hinvalid, invalidReply]

theorem taken_as_documented_list :
    TakenAsDocumented ⟨1, ascii "alice"⟩ ⟨ascii "LIST", by decide⟩ [] ↔
      (∃ command, Documented listLine command) ∨ ¬ Recognised (cstr listLine) :=
  taken_as_documented_iff ⟨1, ascii "alice"⟩ ⟨ascii "LIST", by decide⟩ [] (by decide)

theorem Documented.delete_line {line name : Bytes} (h : Documented line (.delete name)) :
    line = ascii "DELETE " ++ name ++ ascii "\n" := by
  cases h with
  | delete filename => rfl

/-- A `DELETE` of a name of 256 bytes is a task for the file that is named by the first 255. -/
theorem long_name_deletes_another :
    ¬ TakenAsDocumented ⟨1, ascii "alice"⟩ ⟨ascii "DELETE " ++ List.replicate 256 97, by decide +kernel⟩ [] := by
  intro h
  have hparse : parseCommand (cstr (ascii "DELETE " ++ List.replicate 256 97 ++ ascii "\n" ++ [])) =
      .delete (List.replicate 255 97) := by decide +kernel
  have hobeys := h busyEnv ⟨[.data (ascii "DELETE " ++ List.replicate 256 97 ++ ascii "\n" ++ [])], []⟩ []
    (by decide +kernel)
  have hundocumented : ∀ command, ¬ Documented (ascii "DELETE " ++ List.replicate 256 97 ++ ascii "\n") command := by
    intro command hdocumented
    obtain rfl := hparse.symm.trans (hdocumented.parse [])
    exact absurd hdocumented.delete_line (by decide +kernel)
  have hrefused := hobeys.refused hundocumented
  exact absurd (congrArg (fun next => next.loop.output) hrefused) (by decide +kernel)

end Stash.Threads
