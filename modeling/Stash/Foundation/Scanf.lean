import Stash.Foundation.CText

/-! The conversions of `sscanf` that read words and unsigned numbers. A format is a list of
directives; the result lists the values that were assigned before the first mismatch. -/
namespace Stash.Foundation.Scanf
open CText

inductive Directive where
  | literal (c : UInt8)
  /-- White space in the format: skips any amount of white space, also none. -/
  | space
  /-- `%<width>s` -/
  | string (width : Nat)
  /-- `%zu` -/
  | size
  deriving DecidableEq, Repr

inductive Value where
  | text (word : Bytes)
  | size (n : UInt64)
  deriving DecidableEq, Repr

def isdigit (c : UInt8) : Bool := 48 ≤ c && c ≤ 57

def digitsValue (digits : Bytes) : Nat := digits.foldl (fun v c => 10 * v + (c.toNat - 48)) 0

/-- `strtoul` on a sign and digits: too large a number saturates, a sign negates modulo 2^64. -/
def strtoul (negative : Bool) (digits : Bytes) : UInt64 :=
  if 2 ^ 64 ≤ digitsValue digits then UInt64.ofNat (2 ^ 64 - 1)
  else if negative then 0 - UInt64.ofNat (digitsValue digits)
  else UInt64.ofNat (digitsValue digits)

def skipSpace (input : Bytes) : Bytes := input.dropWhile isspace

/-- The word that `%s` reads, with what follows it. -/
def scanString (width : Nat) (input : Bytes) : Option (Bytes × Bytes) :=
  let body := skipSpace input
  let word := (body.takeWhile fun c => !isspace c).take width
  if word = [] then none else some (word, body.drop word.length)

/-- An optional sign, with what follows it. -/
def scanSign : Bytes → Bool × Bytes
  | 45 :: rest => (true, rest)
  | 43 :: rest => (false, rest)
  | body => (false, body)

/-- The number that `%zu` reads, with what follows it. -/
def scanSize (input : Bytes) : Option (UInt64 × Bytes) :=
  let (negative, body) := scanSign (skipSpace input)
  let digits := body.takeWhile isdigit
  if digits = [] then none else some (strtoul negative digits, body.drop digits.length)

def sscanf : List Directive → Bytes → List Value
  | [], _ => []
  | .literal _ :: _, [] => []
  | .literal c :: format, b :: rest => if b = c then sscanf format rest else []
  | .space :: format, input => sscanf format (skipSpace input)
  | .string width :: format, input =>
    match scanString width input with
    | some (word, rest) => .text word :: sscanf format rest
    | none => []
  | .size :: format, input =>
    match scanSize input with
    | some (n, rest) => .size n :: sscanf format rest
    | none => []

def literals (text : Bytes) : List Directive := text.map Directive.literal

/-- A word that `%<width>s` reads whole. -/
structure Word (width : Nat) where
  text : Bytes
  ne_nil : text ≠ []
  length_le : text.length ≤ width
  no_space : ∀ c ∈ text, isspace c = false
  no_nul : (0 : UInt8) ∉ text

@[simp] theorem sscanf_literals_append (text : Bytes) (format : List Directive) (rest : Bytes) :
    sscanf (literals text ++ format) (text ++ rest) = sscanf format rest := by
  induction text with
  | nil => rfl
  | cons c text ih => simpa [literals, sscanf] using ih

/-- A text that does not begin with the literal part assigns nothing. -/
theorem sscanf_literals_mismatch {text : Bytes} (format : List Directive) {input : Bytes}
    (h : ¬ text <+: input) : sscanf (literals text ++ format) input = [] := by
  induction text generalizing input with
  | nil => exact absurd (List.nil_prefix) h
  | cons c text ih =>
    cases input with
    | nil => rfl
    | cons b rest =>
      simp only [literals, List.map_cons, List.cons_append, sscanf]
      split
      · rename_i hb
        subst hb
        exact ih fun hp => h (List.cons_prefix_cons.mpr ⟨rfl, hp⟩)
      · rfl

/-- A word within the width that white space or the end follows is read as it stands. -/
theorem scanString_word {width : Nat} (word : Word width) {rest : Bytes}
    (hrest : ∀ c ∈ rest.head?, isspace c = true) :
    scanString width (word.text ++ rest) = some (word.text, rest) := by
  obtain ⟨text, hne, hw, hword, _⟩ := word
  have hskip : skipSpace (text ++ rest) = text ++ rest := by
    cases text with
    | nil => exact absurd rfl hne
    | cons c text => simp [skipSpace, hword c (by simp)]
  have htake : (text ++ rest).takeWhile (fun c => !isspace c) = text := by
    rw [List.takeWhile_append_of_pos (fun c hc => by simp [hword c hc])]
    cases rest with
    | nil => simp
    | cons c rest => simp [hrest c (by simp)]
  simp [scanString, hskip, htake, List.take_of_length_le hw, hne]

/-- A word as long as the width is read as it stands, whatever follows it. -/
theorem scanString_full {width : Nat} (word : Word width) (hfull : word.text.length = width) (rest : Bytes) :
    scanString width (word.text ++ rest) = some (word.text, rest) := by
  obtain ⟨text, hne, _, hword, _⟩ := word
  have hskip : skipSpace (text ++ rest) = text ++ rest := by
    cases text with
    | nil => exact absurd rfl hne
    | cons c text => simp [skipSpace, hword c (by simp)]
  have htake : ((text ++ rest).takeWhile fun c => !isspace c).take width = text := by
    rw [List.takeWhile_append_of_pos (fun c hc => by simp [hword c hc]), List.take_left' hfull]
  simp [scanString, hskip, htake, hne]

/-- Whatever `%<width>s` reads from a string is such a word. -/
theorem scanString_isWord {width : Nat} {input text rest : Bytes} (hinput : (0 : UInt8) ∉ input)
    (h : scanString width input = some (text, rest)) : ∃ word : Word width, word.text = text := by
  simp only [scanString] at h
  split at h
  · cases h
  · rename_i hne
    obtain ⟨rfl, _⟩ := Prod.mk.inj (Option.some.inj h)
    refine ⟨⟨_, hne, List.length_take_le _ _, fun c hc => ?_, fun h0 => ?_⟩, rfl⟩
    · simpa using List.mem_takeWhile_imp (List.mem_of_mem_take hc)
    · apply hinput
      have hbody := (List.takeWhile_sublist _).subset (List.mem_of_mem_take h0)
      exact (List.dropWhile_sublist _).subset hbody

/-- The first value of a format that reads a word behind a keyword. -/
theorem sscanf_isWord {keyword : Bytes} {width : Nat} {format : List Directive} {input text : Bytes}
    {values : List Value} (hinput : (0 : UInt8) ∉ input)
    (h : sscanf (literals keyword ++ .space :: .string width :: format) input = .text text :: values) :
    ∃ word : Word width, word.text = text := by
  by_cases hp : keyword <+: input
  · obtain ⟨rest, rfl⟩ := hp
    rw [sscanf_literals_append] at h
    have hrest : (0 : UInt8) ∉ skipSpace rest := fun h0 =>
      hinput (List.mem_append_right _ ((List.dropWhile_sublist _).subset h0))
    simp only [sscanf] at h
    split at h
    · rename_i hscan
      simp only [List.cons.injEq, Value.text.injEq] at h
      obtain ⟨word, hword⟩ := scanString_isWord hrest hscan
      exact ⟨word, hword.trans h.1⟩
    · cases h
  · rw [sscanf_literals_mismatch _ hp] at h
    cases h

theorem isspace_of_isdigit {c : UInt8} (h : isdigit c = true) : isspace c = false := by
  simp only [isdigit, Bool.and_eq_true, decide_eq_true_eq] at h
  simp only [isspace, Bool.or_eq_false_iff, Bool.and_eq_false_iff, decide_eq_false_iff_not,
    beq_eq_false_iff_ne]
  have h48 := UInt8.le_iff_toNat_le.mp h.1
  refine ⟨fun he => ?_, .inr fun hle => ?_⟩
  · subst he
    exact absurd h48 (by decide)
  · have := UInt8.le_iff_toNat_le.mp hle
    simp at this h48
    omega

/-- A number that no digit follows is read with its value. -/
theorem scanSize_digits {digits rest : Bytes} (hne : digits ≠ [])
    (hdigits : ∀ c ∈ digits, isdigit c = true) (hrest : ∀ c ∈ rest.head?, isdigit c = false) :
    scanSize (digits ++ rest) = some (strtoul false digits, rest) := by
  cases digits with
  | nil => exact absurd rfl hne
  | cons d digits =>
    have hd := hdigits d (by simp)
    have hskip : skipSpace (d :: digits ++ rest) = d :: digits ++ rest := by
      simp [skipSpace, isspace_of_isdigit hd]
    have hsign : scanSign (d :: digits ++ rest) = (false, d :: digits ++ rest) := by
      simp only [isdigit, Bool.and_eq_true, decide_eq_true_eq] at hd
      have h48 := UInt8.le_iff_toNat_le.mp hd.1
      unfold scanSign
      split
      · rename_i he
        simp only [List.cons_append, List.cons.injEq] at he
        rw [he.1] at h48
        exact absurd h48 (by decide)
      · rename_i he
        simp only [List.cons_append, List.cons.injEq] at he
        rw [he.1] at h48
        exact absurd h48 (by decide)
      · rfl
    have htake : (d :: digits ++ rest).takeWhile isdigit = d :: digits := by
      rw [List.takeWhile_append_of_pos hdigits]
      cases rest with
      | nil => simp
      | cons c rest => simp [hrest c (by simp)]
    simp only [scanSize, hskip, hsign, htake]
    simp

/-- Nothing but white space. -/
def Blank (text : Bytes) : Prop := ∀ c ∈ text, isspace c = true

theorem skipSpace_eq_nil {text : Bytes} : skipSpace text = [] ↔ Blank text := List.dropWhile_eq_nil_iff

theorem skipSpace_append {before : Bytes} (h : Blank before) (rest : Bytes) :
    skipSpace (before ++ rest) = skipSpace rest := by
  induction before with
  | nil => rfl
  | cons c before ih =>
    rw [skipSpace, List.cons_append, List.dropWhile_cons_of_pos (h c (List.mem_cons_self ..))]
    exact ih fun d hd => h d (List.mem_cons_of_mem c hd)

/-- What is skipped is white space, and what is left does not begin with any. -/
theorem skipSpace_spec (text : Bytes) :
    ∃ before, text = before ++ skipSpace text ∧ Blank before ∧ ∀ c ∈ (skipSpace text).head?, isspace c = false := by
  refine ⟨text.takeWhile isspace, List.takeWhile_append_dropWhile.symm, fun c hc => List.mem_takeWhile_imp hc, ?_⟩
  intro c hc
  cases hskip : skipSpace text with
  | nil => rw [hskip] at hc; cases hc
  | cons d rest =>
    rw [hskip] at hc
    obtain rfl := Option.some.inj hc
    have hstop := List.dropWhile_get_zero_not isspace text (by rw [← skipSpace, hskip]; exact Nat.succ_pos _)
    have hget : (List.dropWhile isspace text) = d :: rest := hskip
    simpa [hget] using hstop

theorem skipSpace_of_head {text : Bytes} (h : ∀ c ∈ text.head?, isspace c = false) : skipSpace text = text := by
  cases text with
  | nil => rfl
  | cons c text => simp [skipSpace, h c rfl]

theorem scanString_skipSpace (width : Nat) (input : Bytes) :
    scanString width (skipSpace input) = scanString width input := by
  obtain ⟨_, _, _, hhead⟩ := skipSpace_spec input
  simp only [scanString, skipSpace_of_head hhead]

/-- A word is found unless the input is blank. -/
theorem scanString_eq_none {width : Nat} (hwidth : 0 < width) {input : Bytes} :
    scanString width input = none ↔ Blank input := by
  rw [← skipSpace_eq_nil]
  obtain ⟨_, _, _, hhead⟩ := skipSpace_spec input
  cases hskip : skipSpace input with
  | nil => simp [scanString, hskip]
  | cons c rest =>
    rw [hskip] at hhead
    obtain ⟨w, rfl⟩ := Nat.exists_eq_succ_of_ne_zero (Nat.ne_of_gt hwidth)
    simp [scanString, hskip, hhead c rfl]

/-- The word and the rest of the input, with the white space in front of the word. -/
theorem scanString_spec {width : Nat} {input text rest : Bytes} (h : scanString width input = some (text, rest)) :
    ∃ before, input = before ++ (text ++ rest) ∧ Blank before ∧ text ≠ [] ∧
      (∀ c ∈ text, isspace c = false) ∧ text.length ≤ width ∧
      (text.length < width → ∀ c ∈ rest.head?, isspace c = true) := by
  simp only [scanString] at h
  split at h
  · cases h
  · rename_i hne
    obtain ⟨htext, hrest⟩ := Prod.mk.inj (Option.some.inj h)
    obtain ⟨before, hinput, hblank, _⟩ := skipSpace_spec input
    set run := (skipSpace input).takeWhile fun c => !isspace c with hrun
    have hbody : skipSpace input = text ++ rest := by
      rw [← hrest, htext]
      have hprefix : text <+: skipSpace input := by
        rw [← htext]
        exact (List.take_prefix _ _).trans (List.takeWhile_prefix _)
      obtain ⟨tail, htail⟩ := hprefix
      rw [← htail, List.drop_left]
    refine ⟨before, by rw [← hbody]; exact hinput, hblank, htext ▸ hne, fun c hc => ?_, ?_, fun hshort c hc => ?_⟩
    · have hmem : c ∈ run := List.mem_of_mem_take (htext ▸ hc)
      simpa using List.mem_takeWhile_imp hmem
    · rw [← htext]
      exact List.length_take_le _ _
    · -- The run of other characters ended before the width did.
      have hwhole : text = run := by
        rw [← htext] at hshort ⊢
        rw [List.length_take] at hshort
        exact List.take_of_length_le (by omega)
      have hdrop : rest = (skipSpace input).dropWhile fun c => !isspace c := by
        have hsplit := List.takeWhile_append_dropWhile (p := fun c => !isspace c) (l := skipSpace input)
        rw [← hrun, ← hwhole, hbody] at hsplit
        rw [hbody]
        exact (List.append_cancel_left hsplit).symm
      cases hlist : rest with
      | nil => rw [hlist] at hc; cases hc
      | cons d tail =>
        rw [hlist] at hc
        obtain rfl := Option.some.inj hc
        have hstop := List.dropWhile_get_zero_not (fun c => !isspace c) (skipSpace input)
          (by rw [← hdrop, hlist]; exact Nat.succ_pos _)
        rw [hlist] at hdrop
        simpa [← hdrop] using hstop

theorem isdigit_sign {c : UInt8} (h : isdigit c = true) : c ≠ 43 ∧ c ≠ 45 := by
  constructor
  · rintro rfl
    exact absurd h (by decide)
  · rintro rfl
    exact absurd h (by decide)

/-- At most one sign is taken off. -/
theorem scanSign_spec (body : Bytes) :
    ∃ sign, body = sign ++ (scanSign body).2 ∧ (sign = [] ∨ sign = [43] ∨ sign = [45]) := by
  unfold scanSign
  split
  · exact ⟨[45], rfl, .inr (.inr rfl)⟩
  · exact ⟨[43], rfl, .inr (.inl rfl)⟩
  · exact ⟨[], rfl, .inl rfl⟩

theorem scanSign_digit {sign : Bytes} (hsign : sign = [] ∨ sign = [43] ∨ sign = [45]) {d : UInt8}
    (hd : isdigit d = true) (after : Bytes) : (scanSign (sign ++ d :: after)).2 = d :: after := by
  obtain ⟨hplus, hminus⟩ := isdigit_sign hd
  rcases hsign with rfl | rfl | rfl
  · rw [List.nil_append, scanSign]
    · exact fun rest heq => hminus (List.cons.inj heq).1
    · exact fun rest heq => hplus (List.cons.inj heq).1
  · rfl
  · rfl

theorem scanSize_skipSpace (input : Bytes) : scanSize (skipSpace input) = scanSize input := by
  obtain ⟨_, _, _, hhead⟩ := skipSpace_spec input
  simp only [scanSize, skipSpace_of_head hhead]

/-- A number is found where a digit stands behind white space and at most one sign. -/
theorem scanSize_ne_none {input : Bytes} :
    scanSize input ≠ none ↔ ∃ gap sign d after, input = gap ++ (sign ++ d :: after) ∧ Blank gap ∧
      (sign = [] ∨ sign = [43] ∨ sign = [45]) ∧ isdigit d = true := by
  constructor
  · intro h
    obtain ⟨gap, hinput, hgap, _⟩ := skipSpace_spec input
    obtain ⟨sign, hbody, hsign⟩ := scanSign_spec (skipSpace input)
    cases hrest : (scanSign (skipSpace input)).2 with
    | nil => exact absurd (by simp [scanSize, hrest]) h
    | cons d after =>
      refine ⟨gap, sign, d, after, ?_, hgap, hsign, ?_⟩
      · rw [← hrest, ← hbody]
        exact hinput
      · by_contra hd
        exact h (by simp [scanSize, hrest, hd])
  · rintro ⟨gap, sign, d, after, rfl, hgap, hsign, hd⟩
    have hskip : skipSpace (gap ++ (sign ++ d :: after)) = sign ++ d :: after := by
      rw [skipSpace_append hgap]
      apply skipSpace_of_head
      rcases hsign with rfl | rfl | rfl
      · simpa using isspace_of_isdigit hd
      · simp [isspace]
      · simp [isspace]
    simp [scanSize, hskip, scanSign_digit hsign hd after, hd]

end Stash.Foundation.Scanf
