import Mathlib.Data.BitVec
import Mathlib.Tactic.Common

/-!
# Vector registers

A register of a vector unit is `n` lanes of `w` bits, lane 0 the lowest. `pairs` reads it as lanes
of twice the width, the lower lane of each pair first, and `halves` goes back. The other operations
are those of a vector unit: interleaving the lower or the upper halves of two registers, packing
with saturation, sums of signed products, arithmetic shifts, and moving bytes about.

`toInt` arithmetic on lanes is done with `BitVec.ofInt`: the lemmas at the end say that the
operations of a vector unit keep that form while a lane has room for the number.
-/

namespace TiraRdp.Lib.Simd

abbrev Lanes (n w : Nat) := Fin n → BitVec w

variable {n w v : Nat}

/-- Neighbouring lanes as one. -/
def pairs (a : Lanes (2 * n) w) : Lanes n (w + w) := fun i =>
  a ⟨2 * i + 1, by omega⟩ ++ a ⟨2 * i, by omega⟩

def halves (a : Lanes n (w + w)) : Lanes (2 * n) w := fun i =>
  if i.val % 2 = 0 then (a ⟨i / 2, by omega⟩).extractLsb' 0 w
  else (a ⟨i / 2, by omega⟩).extractLsb' w w

theorem pairs_halves (a : Lanes n (w + w)) : pairs (halves a) = a := by
  funext i
  have hodd : (2 * i.val + 1) / 2 = i := by omega
  have heven : 2 * i.val / 2 = i := by omega
  simp only [pairs, halves, hodd, heven, Nat.mul_mod_right, Nat.mul_add_mod, if_true]
  exact BitVec.extractLsb'_append_extractLsb'

/-- The lower halves, lane by lane. -/
def unpackLo (a b : Lanes n w) : Lanes n w := fun i =>
  if i.val % 2 = 0 then a ⟨i / 2, by omega⟩ else b ⟨i / 2, by omega⟩

/-- The upper halves, lane by lane. -/
def unpackHi (a b : Lanes n w) : Lanes n w := fun i =>
  if i.val % 2 = 0 then a ⟨n / 2 + i / 2, by omega⟩ else b ⟨n / 2 + i / 2, by omega⟩

theorem pairs_unpackLo (a b : Lanes (2 * n) w) (i : Fin n) :
    pairs (unpackLo a b) i = b ⟨i, by omega⟩ ++ a ⟨i, by omega⟩ := by
  have hodd : (2 * i.val + 1) / 2 = i := by omega
  have heven : 2 * i.val / 2 = i := by omega
  simp [pairs, unpackLo, hodd, heven]

theorem pairs_unpackHi (a b : Lanes (2 * n) w) (i : Fin n) :
    pairs (unpackHi a b) i = b ⟨n + i, by omega⟩ ++ a ⟨n + i, by omega⟩ := by
  have hodd : (2 * i.val + 1) / 2 = i := by omega
  have heven : 2 * i.val / 2 = i := by omega
  have hhalf : 2 * n / 2 = n := by omega
  simp [pairs, unpackHi, hodd, heven, hhalf]

/-- Interleaving pairs, lane by lane. -/
theorem halves_unpackLo_pairs (a b : Lanes (2 * n) w) (i : Fin (2 * n)) :
    halves (unpackLo (pairs a) (pairs b)) i =
      if i.val / 2 % 2 = 0 then a ⟨2 * (i / 4) + i % 2, by omega⟩
      else b ⟨2 * (i / 4) + i % 2, by omega⟩ := by
  have hquad : i.val / 2 / 2 = i / 4 := by omega
  unfold halves unpackLo pairs
  simp only [hquad]
  rcases Nat.mod_two_eq_zero_or_one i.val with hi | hi
  · simp only [hi, if_true]
    split_ifs
    all_goals exact BitVec.extractLsb'_append_eq_right
  · simp only [hi, Nat.one_ne_zero, if_false]
    split_ifs
    all_goals exact BitVec.extractLsb'_append_eq_left

theorem halves_unpackHi_pairs (a b : Lanes (2 * n) w) (i : Fin (2 * n)) :
    halves (unpackHi (pairs a) (pairs b)) i =
      if i.val / 2 % 2 = 0 then a ⟨2 * (n / 2 + i / 4) + i % 2, by omega⟩
      else b ⟨2 * (n / 2 + i / 4) + i % 2, by omega⟩ := by
  have hquad : i.val / 2 / 2 = i / 4 := by omega
  unfold halves unpackHi pairs
  simp only [hquad]
  rcases Nat.mod_two_eq_zero_or_one i.val with hi | hi
  · simp only [hi, if_true]
    split_ifs
    all_goals exact BitVec.extractLsb'_append_eq_right
  · simp only [hi, Nat.one_ne_zero, if_false]
    split_ifs
    all_goals exact BitVec.extractLsb'_append_eq_left

/-- The nearest number that an unsigned lane has room for. -/
def saturate (a : BitVec (w + w)) : BitVec w := BitVec.ofInt w (max 0 (min a.toInt (2 ^ w - 1)))

/-- Two registers packed into one of half the width, the first one lower. -/
def packUnsigned (a b : Lanes n (w + w)) : Lanes (2 * n) w := fun i =>
  if h : i.val < n then saturate (a ⟨i, h⟩) else saturate (b ⟨i - n, by omega⟩)

/-- The sums of the signed products of neighbouring lanes. -/
def madd (a b : Lanes (2 * n) w) : Lanes n (w + w) := fun i =>
  (a ⟨2 * i, by omega⟩).signExtend (w + w) * (b ⟨2 * i, by omega⟩).signExtend (w + w) +
    (a ⟨2 * i + 1, by omega⟩).signExtend (w + w) * (b ⟨2 * i + 1, by omega⟩).signExtend (w + w)

/-- Every byte from the lane that the mask names, or zero. -/
def shuffle (a mask : Lanes n 8) : Lanes n 8 := fun i =>
  if (mask i).msb then 0
  else a ⟨(mask i).toNat % n, Nat.mod_lt _ (Nat.zero_lt_of_lt i.isLt)⟩

/-! ## Lanes as integers -/

theorem zero_append_eq_ofInt (a : BitVec w) : 0#w ++ a = BitVec.ofInt (w + w) a.toNat := by
  have hlt := a.isLt
  have hle : 2 ^ w ≤ 2 ^ (w + w) := Nat.pow_le_pow_right (by decide) (Nat.le_add_left w w)
  have hmod : a.toNat % 2 ^ (w + w) = a.toNat := Nat.mod_eq_of_lt (by omega)
  rw [BitVec.ofInt_natCast, ← BitVec.toNat_inj, BitVec.toNat_append,
    BitVec.toNat_ofNat a.toNat, hmod]
  simp

theorem ofInt_sub (x y : Int) : BitVec.ofInt w (x - y) = BitVec.ofInt w x - BitVec.ofInt w y := by
  apply BitVec.eq_of_toInt_eq
  simp

/-- The integers that a lane has room for. -/
def InRange (w : Nat) (x : Int) : Prop := -2 ^ (w - 1) ≤ x ∧ x < 2 ^ (w - 1)

variable {x : Int}

theorem toInt_ofInt_of_inRange (hw : 0 < w) (h : InRange w x) : (BitVec.ofInt w x).toInt = x :=
  BitVec.toInt_ofInt_eq_self hw h.1 h.2

theorem signExtend_ofInt (hw : 0 < w) (h : InRange w x) :
    (BitVec.ofInt w x).signExtend v = BitVec.ofInt v x := by
  rw [BitVec.signExtend, toInt_ofInt_of_inRange hw h]

theorem sshiftRight_ofInt (hw : 0 < w) (h : InRange w x) (k : Nat) :
    (BitVec.ofInt w x).sshiftRight k = BitVec.ofInt w (x >>> k) := by
  rw [BitVec.sshiftRight, toInt_ofInt_of_inRange hw h]

/-- The lower half of a lane keeps its number modulo its own size. -/
theorem setWidth_ofInt (hv : v ≤ w) (x : Int) :
    (BitVec.ofInt w x).setWidth v = BitVec.ofInt v x := by
  have hdvd : ((2 ^ v : Nat) : Int) ∣ ((2 ^ w : Nat) : Int) :=
    Int.natCast_dvd_natCast.mpr (Nat.pow_dvd_pow 2 hv)
  have hpos : (0 : Int) < ((2 ^ w : Nat) : Int) := Int.natCast_pos.mpr (Nat.two_pow_pos w)
  have hnonneg : 0 ≤ x % ((2 ^ w : Nat) : Int) := Int.emod_nonneg _ (Int.ne_of_gt hpos)
  rw [← BitVec.toNat_inj, BitVec.toNat_setWidth, BitVec.toNat_ofInt, BitVec.toNat_ofInt,
    ← Int.emod_emod_of_dvd x hdvd, Int.toNat_emod hnonneg (Int.natCast_nonneg _), Int.toNat_natCast]

/-- Saturation clamps. -/
theorem saturate_ofInt (hw : 0 < w + w) (h : InRange (w + w) x) :
    saturate (BitVec.ofInt (w + w) x) = BitVec.ofInt w (max 0 (min x (2 ^ w - 1))) := by
  rw [saturate, toInt_ofInt_of_inRange hw h]

end TiraRdp.Lib.Simd
