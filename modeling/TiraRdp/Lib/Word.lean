import Mathlib.Algebra.Order.Ring.Int
import Mathlib.Data.List.Basic
import Mathlib.Tactic.Common

/-!
# 32-bit words and their little-endian bytes

Machine words as `Nat` / `Int` with the wrap written out: `u32` is what an `unsigned int` keeps of
a natural number, `subU32` its subtraction, `i32` what an `int` reads out of the same 32 bits.
`le32` / `ofLe` are the bytes of a word in memory order on a little-endian machine.

Results: each wrap is the identity in range (`u32_of_lt`, `subU32_of_le`, `i32_of_lt`), and the two
byte codecs are inverse to each other (`ofLe_le32`, `le32_ofLe`).
-/

namespace TiraRdp.Lib

/-- The bytes of a buffer, a string or a wire. -/
abbrev Bytes := List UInt8

/-- The bytes of a string of ASCII characters. -/
def ascii (s : String) : Bytes := s.toList.map fun c => UInt8.ofNat c.toNat

/-- What a 32-bit unsigned word keeps of `n`. -/
def u32 (n : Nat) : Nat := n % 2 ^ 32

/-- `a - b` on 32-bit unsigned words. -/
def subU32 (a b : Nat) : Nat := u32 (a + (2 ^ 32 - u32 b))

/-- The signed reading of a 32-bit word. -/
def i32 (n : Int) : Int := Int.bmod n (2 ^ 32)

@[simp] theorem u32_of_lt {n : Nat} (h : n < 2 ^ 32) : u32 n = n := Nat.mod_eq_of_lt h

@[simp] theorem subU32_of_le {a b : Nat} (ha : a < 2 ^ 32) (h : b ≤ a) : subU32 a b = a - b := by
  have hb : u32 b = b := u32_of_lt (by omega)
  unfold subU32
  rw [hb]
  unfold u32
  omega

@[simp] theorem i32_of_lt {n : Int} (h0 : 0 ≤ n) (h : n < 2 ^ 31) : i32 n = n := by
  unfold i32
  rw [Int.bmod_eq_of_le] <;> omega

/-- A word from `2 ^ 31` on reads as negative. -/
theorem i32_of_ge {n : Int} (h0 : 2 ^ 31 ≤ n) (h : n < 2 ^ 32) : i32 n = n - 2 ^ 32 := by
  unfold i32
  rw [← Int.sub_bmod_right, Int.bmod_eq_of_le] <;> omega

/-- Past the range of an `int`, what it keeps is at least a whole turn less. -/
theorem i32_add_le {n : Nat} (h : 2 ^ 31 ≤ n) : i32 n + 2 ^ 32 ≤ n := by
  unfold i32 Int.bmod
  dsimp only
  split <;> omega

/-- The four bytes of a word, least significant first. -/
def le32 (n : Nat) : Bytes :=
  [UInt8.ofNat n, UInt8.ofNat (n / 256), UInt8.ofNat (n / 65536), UInt8.ofNat (n / 16777216)]

/-- The two bytes of a 16-bit word, least significant first. -/
def le16 (n : Nat) : Bytes := [UInt8.ofNat n, UInt8.ofNat (n / 256)]

/-- The word whose bytes these are, least significant first. -/
def ofLe (bs : Bytes) : Nat := bs.foldr (fun b acc => b.toNat + 256 * acc) 0

@[simp] theorem le32_length (n : Nat) : (le32 n).length = 4 := rfl

theorem ofLe_le32 {n : Nat} (h : n < 2 ^ 32) : ofLe (le32 n) = n := by
  simp only [ofLe, le32, List.foldr_cons, List.foldr_nil, UInt8.toNat_ofNat']
  omega

theorem ofLe_lt {bs : Bytes} (h : bs.length = 4) : ofLe bs < 2 ^ 32 := by
  match bs, h with
  | [a, b, c, d], _ =>
    have ha := a.toNat_lt
    have hb := b.toNat_lt
    have hc := c.toNat_lt
    have hd := d.toNat_lt
    simp only [ofLe, List.foldr_cons, List.foldr_nil]
    omega

/-- More bytes only add to the word. -/
theorem ofLe_le_append (bs cs : Bytes) : ofLe bs ≤ ofLe (bs ++ cs) := by
  induction bs with
  | nil => exact Nat.zero_le _
  | cons b bs ih =>
    have hcons (xs : Bytes) : ofLe (b :: xs) = b.toNat + 256 * ofLe xs := rfl
    rw [List.cons_append, hcons, hcons]
    omega

/-- Every four bytes are the bytes of the word they spell. -/
theorem le32_ofLe {bs : Bytes} (h : bs.length = 4) : le32 (ofLe bs) = bs := by
  match bs, h with
  | [a, b, c, d], _ =>
    have ha := a.toNat_lt
    have hb := b.toNat_lt
    have hc := c.toNat_lt
    have hd := d.toNat_lt
    simp only [ofLe, le32, List.foldr_cons, List.foldr_nil, List.cons.injEq, and_true,
      ← UInt8.toNat_inj, UInt8.toNat_ofNat']
    omega

end TiraRdp.Lib
