import Mathlib.Data.List.TakeWhile
import TiraRdp.Rtsp.IMsg

/-!
# Decimal numbers

`decimal`, what an `ostream` writes for an integer, and `extractInt`, what an `istream` reads. The
characters of `decimal` are digits, with a sign before those of a negative number (`mem_decimal`),
at most eleven for an `int`, and an `int` is read back (`extractInt_decimal`).
-/

namespace TiraRdp

open Lib

/-- The bytes of a natural number's digits. -/
def digits (n : Nat) : Bytes := (Nat.toDigits 10 n).map fun c => UInt8.ofNat c.toNat

theorem decimal_of_nonneg {n : Int} (h : 0 ≤ n) : decimal n = digits n.toNat := by
  rw [decimal, Int.toString_eq_repr, Int.repr_eq_if, if_pos h, ascii, Nat.toList_repr, digits]

theorem decimal_of_neg {n : Int} (h : n < 0) : decimal n = 45 :: digits (-n).toNat := by
  rw [decimal, Int.toString_eq_repr, Int.repr_eq_if, if_neg (Int.not_le.mpr h), ascii,
    String.toList_append, Nat.toList_repr, List.map_append, digits]
  rfl

/-- A digit is the same number as a character and as a byte. -/
theorem digit_range {c : Char} (h : c.isDigit = true) :
    (UInt8.ofNat c.toNat).toNat = c.toNat ∧ 48 ≤ c.toNat ∧ c.toNat ≤ 57 := by
  obtain ⟨hlow, hhigh⟩ := Char.isDigit_iff_toNat.mp h
  have hhigh' : c.toNat ≤ 57 := hhigh
  refine ⟨?_, hlow, hhigh'⟩
  rw [UInt8.toNat_ofNat']
  exact Nat.mod_eq_of_lt (by omega)

theorem isDigit_toNat {b : UInt8} : isDigit b = true ↔ 48 ≤ b.toNat ∧ b.toNat ≤ 57 := by
  rw [isDigit, Bool.and_eq_true, decide_eq_true_iff, decide_eq_true_iff, UInt8.le_iff_toNat_le,
    UInt8.le_iff_toNat_le]
  rfl

theorem isDigit_of_mem_digits {n : Nat} {b : UInt8} (h : b ∈ digits n) : isDigit b = true := by
  obtain ⟨c, hc, rfl⟩ := List.mem_map.mp h
  obtain ⟨heq, hrange⟩ := digit_range (Nat.isDigit_of_mem_toDigits (by decide) (by decide) hc)
  rw [isDigit_toNat, heq]
  exact hrange

/-- What a decimal number consists of. -/
theorem mem_decimal {n : Int} {b : UInt8} (h : b ∈ decimal n) : isDigit b = true ∨ b = 45 := by
  rcases Int.lt_or_le n 0 with hn | hn
  · rw [decimal_of_neg hn] at h
    rcases List.mem_cons.mp h with rfl | h
    · exact Or.inr rfl
    · exact Or.inl (isDigit_of_mem_digits h)
  · rw [decimal_of_nonneg hn] at h
    exact Or.inl (isDigit_of_mem_digits h)

theorem digits_ne_nil (n : Nat) : digits n ≠ [] := fun h =>
  Nat.toDigits_ne_nil (List.map_eq_nil_iff.mp h)

/-- An `int` takes at most eleven characters. -/
theorem decimal_length_le {n : Int} (hlow : -2 ^ 31 ≤ n) (hhigh : n < 2 ^ 31) :
    (decimal n).length ≤ 11 := by
  have hdigits (k : Nat) (hk : k < 10 ^ 10) : (digits k).length ≤ 10 := by
    rw [digits, List.length_map]
    exact (Nat.length_toDigits_le_iff (by decide) (by decide)).mpr hk
  rcases Int.lt_or_le n 0 with hn | hn
  · rw [decimal_of_neg hn, List.length_cons]
    exact Nat.succ_le_succ (hdigits _ (by omega))
  · rw [decimal_of_nonneg hn]
    exact Nat.le_succ_of_le (hdigits _ (by omega))

theorem digitsValue_digits (n : Nat) : digitsValue (digits n) = n := by
  have hall : (digits n).takeWhile isDigit = digits n :=
    List.takeWhile_eq_self_iff.mpr fun b hb => isDigit_of_mem_digits hb
  rw [digitsValue, hall, digits, List.foldl_map]
  refine Eq.trans ?_ (Nat.ofDigitChars_ten_toDigits (n := n))
  rw [Nat.ofDigitChars_eq_foldl]
  refine List.foldl_ext _ _ 0 fun value c hc => ?_
  rw [(digit_range (Nat.isDigit_of_mem_toDigits (by decide) (by decide) hc)).1]
  rfl

/-- Nothing is skipped in front of a character that is not white space. -/
theorem dropWhile_isSpace {b : UInt8} (h : isSpace b = false) (bs : Bytes) :
    (b :: bs).dropWhile isSpace = b :: bs :=
      List.dropWhile_cons_of_neg (by rw [h]; exact Bool.false_ne_true)

/-- **An `int` is read back.** -/
theorem extractInt_decimal {n : Int} (hlow : -2 ^ 31 ≤ n) (hhigh : n < 2 ^ 31) (garbage : Int) :
    extractInt garbage (decimal n) = n := by
  rcases Int.lt_or_le n 0 with hn | hn
  · rw [decimal_of_neg hn, extractInt, dropWhile_isSpace (by decide)]
    simp only [if_pos, digitsValue_digits]
    omega
  · rw [decimal_of_nonneg hn]
    cases hdigits : digits n.toNat with
    | nil => exact absurd hdigits (digits_ne_nil _)
    | cons b bs =>
      have hb : isDigit b = true := isDigit_of_mem_digits (hdigits ▸ List.mem_cons_self)
      rw [isDigit_toNat] at hb
      have hspace : isSpace b = false := by
        rw [isSpace, Bool.or_eq_false_iff, Bool.and_eq_false_iff, beq_eq_false_iff_ne]
        refine ⟨?_, Or.inr ?_⟩
        · rintro rfl
          exact absurd hb.1 (by decide)
        · rw [decide_eq_false_iff_not, UInt8.le_iff_toNat_le]
          exact Nat.not_le.mpr (Nat.lt_of_lt_of_le (by decide) hb.1)
      have hminus : b ≠ 45 := by
        rintro rfl
        exact absurd hb.1 (by decide)
      have hplus : b ≠ 43 := by
        rintro rfl
        exact absurd hb.1 (by decide)
      rw [extractInt, dropWhile_isSpace hspace]
      simp only [if_neg hminus, if_neg hplus, ← hdigits, digitsValue_digits]
      omega

end TiraRdp
