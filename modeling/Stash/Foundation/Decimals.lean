import Stash.Foundation.Scanf

/-! The decimal digits that `printf` writes of a number, as `sscanf` reads them. -/
namespace Stash.Foundation.Scanf
open CText

theorem isdigit_byte {c : Char} (h : c.isDigit = true) :
    isdigit c.toNat.toUInt8 = true ∧ c.toNat.toUInt8.toNat = c.toNat := by
  simp only [Char.isDigit, Bool.and_eq_true, decide_eq_true_eq] at h
  have hlow : 48 ≤ c.toNat := h.1
  have hhigh : c.toNat ≤ 57 := h.2
  have hbyte : c.toNat.toUInt8.toNat = c.toNat := by
    rw [Nat.toUInt8_eq, UInt8.toNat_ofNat_of_lt']
    exact Nat.lt_of_le_of_lt hhigh (by decide)
  refine ⟨?_, hbyte⟩
  simp only [isdigit, Bool.and_eq_true, decide_eq_true_eq, UInt8.le_iff_toNat_le, hbyte]
  exact ⟨hlow, hhigh⟩

theorem ascii_toString (n : Nat) : ascii (toString n) = (Nat.toDigits 10 n).map fun c => c.toNat.toUInt8 := by
  rw [ascii, Nat.toString_eq_repr, Nat.toList_repr]

theorem ascii_toString_ne_nil (n : Nat) : ascii (toString n) ≠ [] := by
  rw [ascii_toString, Ne, List.map_eq_nil_iff]
  exact Nat.toDigits_ne_nil

theorem isDigit_toDigits {n : Nat} {c : Char} (h : c ∈ Nat.toDigits 10 n) : c.isDigit = true :=
  Nat.isDigit_of_mem_toDigits (by decide) (by decide) h

theorem isdigit_toString {n : Nat} {c : UInt8} (h : c ∈ ascii (toString n)) : isdigit c = true := by
  rw [ascii_toString] at h
  obtain ⟨d, hd, rfl⟩ := List.mem_map.mp h
  exact (isdigit_byte (isDigit_toDigits hd)).1

theorem foldl_digits {digits : List Char} (h : ∀ c ∈ digits, c.isDigit = true) (v : Nat) :
    (digits.map fun c => c.toNat.toUInt8).foldl (fun v c => 10 * v + (c.toNat - 48)) v = Nat.ofDigitChars 10 digits v := by
  induction digits generalizing v with
  | nil => rfl
  | cons c digits ih =>
    rw [List.map_cons, List.foldl_cons, ih (fun d hd => h d (List.mem_cons_of_mem c hd)), Nat.ofDigitChars_cons,
      (isdigit_byte (h c (List.mem_cons_self ..))).2]
    rfl

/-- A number is read as it was written. -/
theorem digitsValue_toString (n : Nat) : digitsValue (ascii (toString n)) = n := by
  rw [ascii_toString, digitsValue, foldl_digits fun c hc => isDigit_toDigits hc]
  exact Nat.ofDigitChars_toDigits (by decide) (by decide)

theorem length_toString_le {n k : Nat} (hk : 0 < k) (h : n < 10 ^ k) : (ascii (toString n)).length ≤ k := by
  rw [ascii_toString, List.length_map]
  exact (Nat.length_toDigits_le_iff (by decide) hk).mpr h

end Stash.Foundation.Scanf
