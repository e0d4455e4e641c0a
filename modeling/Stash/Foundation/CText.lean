import Mathlib.Algebra.GroupWithZero.Nat
import Mathlib.Data.List.TakeDrop
import Mathlib.Data.List.TakeWhile
import Mathlib.Data.Nat.Find

/-! C strings held in byte lists: the part of a memory area before its first NUL, and the
string functions that only look at that part. -/
namespace Stash.Foundation.CText

abbrev Bytes := List UInt8

/-- The bytes of an ASCII literal. -/
def ascii (text : String) : Bytes := text.toList.map (fun c => c.toNat.toUInt8)

/-- The string that starts at the head of a memory area. -/
def cstr (memory : Bytes) : Bytes := memory.takeWhile (fun c => c != 0)

/-- The characters that `isspace` accepts in the C locale. -/
def isspace (c : UInt8) : Bool := c == 32 || (9 ≤ c && c ≤ 13)

/-- What `snprintf` leaves in a buffer of `size` bytes, without its NUL. -/
def snprintf (size : Nat) (text : Bytes) : Bytes := text.take (size - 1)

/-- `strncat` with room for `n` bytes of the second string. -/
def strncat (buffer text : Bytes) (n : Nat) : Bytes := buffer ++ text.take n

/-- Offset of the first occurrence of `c` in a string. -/
def strchr (c : UInt8) (text : Bytes) : Option Nat := text.findIdx? (fun b => b == c)

/-- Offset of the first occurrence of `needle` in a string. -/
def strstr (needle : Bytes) : Bytes → Option Nat
  | [] => if needle.isPrefixOf [] then some 0 else none
  | c :: rest =>
    if needle.isPrefixOf (c :: rest) then some 0 else (strstr needle rest).map (fun d => d + 1)

/-- `strncmp(text, word, strlen(word)) == 0`. -/
def startsWith (word text : Bytes) : Bool := word.isPrefixOf text

theorem snprintf_of_lt {size : Nat} {text : Bytes} (h : text.length < size) :
    snprintf size text = text := List.take_of_length_le (by omega)

/-- Two texts that differ within their common length begin no text together. -/
theorem not_prefix_append {word text : Bytes} (h : word.take text.length ≠ text.take word.length)
    (rest : Bytes) : ¬ word <+: text ++ rest := by
  intro ⟨tail, he⟩
  apply h
  have htake := congrArg (List.take (min word.length text.length)) he
  rcases Nat.le_total word.length text.length with hle | hle
  · rw [Nat.min_eq_left hle, List.take_left' rfl, List.take_append_of_le_length hle] at htake
    rw [List.take_of_length_le hle]
    exact htake
  · rw [Nat.min_eq_right hle, List.take_append_of_le_length hle, List.take_left' rfl] at htake
    rw [List.take_of_length_le hle]
    exact htake

theorem cstr_of_no_nul {memory : Bytes} (h : (0 : UInt8) ∉ memory) : cstr memory = memory := by
  apply List.takeWhile_eq_self_iff.mpr
  intro c hc
  simpa using fun he : c = 0 => h (he ▸ hc)

theorem cstr_append {text : Bytes} (h : (0 : UInt8) ∉ text) (rest : Bytes) :
    cstr (text ++ rest) = text ++ cstr rest := by
  unfold cstr
  apply List.takeWhile_append_of_pos
  intro c hc
  simpa using fun he : c = 0 => h (he ▸ hc)

theorem cstr_length_le (text rest : Bytes) : (cstr (text ++ 0 :: rest)).length ≤ text.length := by
  induction text with
  | nil => simp [cstr]
  | cons c text ih =>
    simp only [cstr, List.cons_append, List.takeWhile_cons]
    split
    · simpa [cstr] using ih
    · exact Nat.zero_le _

theorem no_nul_cstr (memory : Bytes) : (0 : UInt8) ∉ cstr memory := by
  intro h
  simpa using List.mem_takeWhile_imp h

/-- `strstr` returns the least offset at which the needle stands. -/
theorem strstr_eq_some {needle text : Bytes} {d : Nat} :
    strstr needle text = some d ↔
      needle <+: text.drop d ∧ d ≤ text.length ∧ ∀ e < d, ¬ needle <+: text.drop e := by
  induction text generalizing d with
  | nil =>
    simp only [strstr, List.isPrefixOf_iff_prefix, List.drop_nil, List.length_nil]
    split
    · rename_i h
      constructor
      · rintro ⟨⟩
        exact ⟨h, le_refl 0, by simp⟩
      · rintro ⟨_, hd, _⟩
        rw [Nat.le_zero.mp hd]
    · rename_i h
      simp [h]
  | cons c rest ih =>
    simp only [strstr, List.isPrefixOf_iff_prefix]
    split
    · rename_i h
      constructor
      · rintro ⟨⟩
        exact ⟨h, Nat.zero_le _, by simp⟩
      · rintro ⟨_, _, hbefore⟩
        cases d with
        | zero => rfl
        | succ d => exact absurd h (hbefore 0 (by omega))
    · rename_i h
      cases d with
      | zero => simp [h]
      | succ d =>
        simp only [Option.map_eq_some_iff, Nat.add_right_cancel_iff, exists_eq_right, ih,
          List.drop_succ_cons, List.length_cons, Nat.add_le_add_iff_right]
        constructor
        · rintro ⟨hp, hd, hbefore⟩
          refine ⟨hp, hd, fun e he => ?_⟩
          cases e with
          | zero => exact h
          | succ e => exact hbefore e (by omega)
        · rintro ⟨hp, hd, hbefore⟩
          exact ⟨hp, hd, fun e he => hbefore (e + 1) (by omega)⟩

theorem strstr_eq_none {needle text : Bytes} :
    strstr needle text = none ↔ ∀ d ≤ text.length, ¬ needle <+: text.drop d := by
  constructor
  · intro h d hd hp
    -- The least such offset would have been returned.
    classical
    have hex : ∃ d, d ≤ text.length ∧ needle <+: text.drop d := ⟨d, hd, hp⟩
    have hfound : strstr needle text = some (Nat.find hex) := by
      refine strstr_eq_some.mpr ⟨(Nat.find_spec hex).2, (Nat.find_spec hex).1, fun e he => ?_⟩
      intro hpe
      exact Nat.find_min hex he ⟨le_trans he.le (Nat.find_spec hex).1, hpe⟩
    rw [h] at hfound
    cases hfound
  · intro h
    cases hs : strstr needle text with
    | none => rfl
    | some d =>
      obtain ⟨hp, hd, _⟩ := strstr_eq_some.mp hs
      exact absurd hp (h d hd)

/-- In a text that ends with the needle, the search stops there when the needle begins with
a byte that it holds only once and stands nowhere before. -/
theorem strstr_append_eq_some {c : UInt8} {needle before after : Bytes} (honce : c ∉ needle) :
    strstr (c :: needle) (before ++ c :: needle ++ after) = some before.length ↔
      ¬ c :: needle <:+: before := by
  rw [strstr_eq_some, List.append_assoc, List.drop_left, List.length_append]
  refine ⟨?_, fun h => ⟨List.prefix_append _ _, Nat.le_add_right _ _, fun d hd hp => h ?_⟩⟩
  · rintro ⟨_, _, hbefore⟩ ⟨front, back, he⟩
    refine hbefore front.length ?_ ?_
    · rw [← he]
      simp only [List.length_append, List.length_cons]
      omega
    · rw [← he]
      exact ⟨back ++ (c :: needle ++ after), by simp⟩
  · -- The occurrence ends before the last one begins: its first byte would occur twice.
    rw [List.drop_append_of_le_length hd.le] at hp
    have hwithin : (c :: needle).length ≤ (before.drop d).length := by
      by_contra hlong
      obtain ⟨rest, hrest⟩ := hp
      have hc : (c :: needle)[(before.drop d).length]? = some c := by
        have hget : (c :: needle ++ rest)[(before.drop d).length]? = some c := by
          rw [hrest, List.getElem?_append_right (le_refl _)]
          simp
        rwa [List.getElem?_append_left (by omega)] at hget
      obtain ⟨e, he⟩ : ∃ e, (before.drop d).length = e + 1 :=
        Nat.exists_eq_add_one_of_ne_zero (by rw [List.length_drop]; omega)
      rw [he, List.getElem?_cons_succ] at hc
      exact honce (List.mem_of_getElem? hc)
    have hprefix := List.prefix_of_prefix_length_le hp (List.prefix_append _ _) hwithin
    exact hprefix.isInfix.trans (List.drop_suffix d before).isInfix

theorem strchr_append {c : UInt8} {before after : Bytes} (h : c ∉ before) :
    strchr c (before ++ c :: after) = some before.length := by
  unfold strchr
  induction before with
  | nil => simp [List.findIdx?_cons]
  | cons b before ih =>
    have hb : (b == c) = false := by
      simpa using fun he : b = c => h (by simp [he])
    simp [List.findIdx?_cons, hb, ih (fun hm => h (List.mem_cons_of_mem _ hm))]

/-- A text without `c` that stands in two texts, the first of which ends with `c`, stands in
one of them. -/
theorem infix_append {c : UInt8} {needle before after : Bytes} (hc : c ∉ needle)
    (hlast : before = [] ∨ before.getLast? = some c) (h : needle <:+: before ++ after) :
    needle <:+: before ∨ needle <:+: after := by
  obtain ⟨front, back, heq⟩ := h
  rcases List.append_eq_append_iff.mp heq with ⟨middle, rfl, rfl⟩ | ⟨middle, hneedle, rfl⟩
  · exact .inl ⟨front, middle, rfl⟩
  · rcases List.append_eq_append_iff.mp hneedle with ⟨overlap, rfl, rfl⟩ | ⟨gap, rfl, rfl⟩
    · cases hoverlap : overlap.getLast? with
      | none =>
        obtain rfl := List.getLast?_eq_none_iff.mp hoverlap
        exact .inr ⟨[], back, rfl⟩
      | some d =>
        -- The last byte of the first text would be one of the needle.
        have hend : (front ++ overlap).getLast? = some d := by simp [List.getLast?_append, hoverlap]
        rcases hlast with hnil | hlast
        · rw [hnil] at hend
          cases hend
        · obtain rfl := Option.some.inj (hend.symm.trans hlast)
          exact absurd (List.mem_append_left _ (List.mem_of_getLast? hoverlap)) hc
    · exact .inr ⟨gap, back, rfl⟩

theorem strstr_isInfix {needle text : Bytes} (h : (strstr needle text).isSome = true) : needle <:+: text := by
  obtain ⟨d, hd⟩ := Option.isSome_iff_exists.mp h
  exact (strstr_eq_some.mp hd).1.isInfix.trans (List.drop_suffix d text).isInfix

theorem cstr_isPrefix (memory : Bytes) : cstr memory <+: memory := List.takeWhile_prefix _

end Stash.Foundation.CText
