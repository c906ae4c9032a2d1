import Mathlib.Algebra.Order.Ring.Int
import Mathlib.Tactic.Linarith
import Mathlib.Tactic.Ring

/-!
# Integer types of C

An integer type is a sign and a width of 8, 16, 32 or 64 bits; `T.Val` are its values. `conv`
converts to a type, modulo `2 ^ width`. Operands narrower than `int`, which has 32 bits, are
promoted to it; the sum or difference of promoted operands (`arith`) wraps where their type has no
sign and is undefined where it has one and the result is not in range.

`quotient` is the division of a promoted operand by an unsigned number of `size` bits: the operand
keeps its sign only where its type is the wider one, and is converted to an unsigned type otherwise.

Results: a conversion of a value in range is the value (`conv_of_has`); the truncated mean of
numbers is between bounds of them (`tdiv_between`); where a negative number is divided as unsigned,
the quotient is too large by `2 ^ bits / d` or one less (`emod_div_of_neg`), so converted back it is
the truncated quotient iff the type's modulus divides that (`wrap_eq_tdiv_iff`).
-/

namespace TiraRdp.Lib

structure IntType where
  signed : Bool
  width : Nat
  width_mem : width = 8 ∨ width = 16 ∨ width = 32 ∨ width = 64
  deriving DecidableEq

namespace IntType

def int : IntType := ⟨true, 32, by decide⟩

variable (T : IntType)

/-- The least value. -/
def lo : Int := if T.signed then -2 ^ (T.width - 1) else 0

/-- How many values there are. -/
def modulus : Int := 2 ^ T.width

/-- `n` is a value of the type. -/
def Has (n : Int) : Prop := T.lo ≤ n ∧ n < T.lo + T.modulus

instance (n : Int) : Decidable (T.Has n) := inferInstanceAs (Decidable (_ ∧ _))

def Val := { n : Int // T.Has n }

instance : DecidableEq T.Val := inferInstanceAs (DecidableEq { n : Int // T.Has n })

/-- The value that is `n` modulo the modulus. -/
def wrap (n : Int) : Int := (n - T.lo) % T.modulus + T.lo

theorem modulus_eq : T.modulus = 2 * 2 ^ (T.width - 1) := by
  have hw : T.width - 1 + 1 = T.width := by
    rcases T.width_mem with h | h | h | h <;> omega
  unfold modulus
  rw [← hw, pow_succ, Int.mul_comm, Nat.add_sub_cancel]

theorem modulus_pos : 0 < T.modulus := Int.pow_pos (by decide)

theorem wrap_has (n : Int) : T.Has (T.wrap n) := by
  have hpos := T.modulus_pos
  have hlow := Int.emod_nonneg (n - T.lo) hpos.ne'
  have hhigh := Int.emod_lt_of_pos (n - T.lo) hpos
  unfold Has wrap
  omega

/-- Conversion to the type. -/
def conv (n : Int) : T.Val := ⟨T.wrap n, T.wrap_has n⟩

/-- The type that a value is promoted to. -/
def promoted : IntType := if T.width < 32 then int else T

/-- A sum or a difference of promoted operands; `none` where it is undefined. -/
def arith (n : Int) : Option Int :=
  if T.promoted.signed then if T.promoted.Has n then some n else none
  else some (T.promoted.wrap n)

/-- The number of bits of the type in which a promoted operand is divided by an unsigned number of
`size` bits. -/
def bits (size : Nat) : Nat := max T.promoted.width size

/-- Such a division has a sign. -/
def DividesSigned (size : Nat) : Prop := T.promoted.signed = true ∧ size < T.promoted.width

instance (size : Nat) : Decidable (T.DividesSigned size) := inferInstanceAs (Decidable (_ ∧ _))

def quotient (size : Nat) (n : Int) (d : Nat) : Int :=
  if T.DividesSigned size then n.tdiv d else n % 2 ^ T.bits size / d

variable {T} {n m : Int}

theorem wrap_of_has (h : T.Has n) : T.wrap n = n := by
  obtain ⟨hlow, hhigh⟩ := h
  unfold wrap
  rw [Int.emod_eq_of_lt (by omega) (by omega)]
  omega

theorem conv_of_has (h : T.Has n) : (T.conv n).1 = n := wrap_of_has h

/-- Numbers that differ by a multiple of the modulus are converted to the same value. -/
theorem wrap_eq_iff : T.wrap n = T.wrap m ↔ T.modulus ∣ n - m := by
  unfold wrap
  rw [add_left_inj, Int.emod_eq_emod_iff_emod_sub_eq_zero, sub_sub_sub_cancel_right,
    Int.dvd_iff_emod_eq_zero]

theorem wrap_wrap (T : IntType) (n : Int) : T.wrap (T.wrap n) = T.wrap n :=
  wrap_of_has (T.wrap_has n)

/-- A sum may be wrapped as it goes on. -/
theorem wrap_wrap_add (T : IntType) (n m : Int) : T.wrap (T.wrap n + m) = T.wrap (n + m) := by
  rw [wrap_eq_iff, add_sub_add_right_eq_sub]
  exact wrap_eq_iff.mp (T.wrap_wrap n)

/-! ## Promotion -/

theorem lo_between (T : IntType) : -T.modulus ≤ T.lo ∧ T.lo ≤ 0 := by
  have hpos := T.modulus_pos
  rw [modulus_eq] at hpos ⊢
  unfold lo
  split <;> omega

theorem has_zero (T : IntType) : T.Has 0 := by
  have hpos := T.modulus_pos
  rw [modulus_eq] at hpos
  unfold Has lo
  rw [modulus_eq]
  split <;> omega

/-- The values of a type without a sign. -/
theorem has_of_unsigned (hs : T.signed = false) : T.Has n ↔ 0 ≤ n ∧ n < T.modulus := by
  have hlo : T.lo = 0 := by rw [lo, hs, if_neg Bool.false_ne_true]
  rw [Has, hlo, Int.zero_add]

theorem int_has : int.Has n ↔ -2147483648 ≤ n ∧ n < 2147483648 := Iff.rfl

/-- The values of a type narrower than `int` are far from the ends of `int`. -/
theorem Has.of_narrow (hT : T.width < 32) (h : T.Has n) : -65536 ≤ n ∧ n < 65536 := by
  have hmod : T.modulus ≤ 65536 := by
    unfold modulus
    rcases T.width_mem with h | h | h | h <;> rw [h] at hT ⊢ <;> omega
  obtain ⟨hlow, hhigh⟩ := h
  have hlo := T.lo_between
  omega

theorem promoted_of_narrow (hT : T.width < 32) : T.promoted = int := if_pos hT

theorem promoted_of_wide (hT : 32 ≤ T.width) : T.promoted = T := if_neg (Nat.not_lt.mpr hT)

/-- A promotion keeps the value. -/
theorem Has.promoted (h : T.Has n) : T.promoted.Has n := by
  rcases Nat.lt_or_ge T.width 32 with hT | hT
  · obtain ⟨hlow, hhigh⟩ := h.of_narrow hT
    rw [promoted_of_narrow hT, int_has]
    omega
  · rwa [promoted_of_wide hT]

theorem width_le_bits (T : IntType) (size : Nat) : T.width ≤ T.bits size := by
  refine Nat.le_trans ?_ (Nat.le_max_left _ _)
  rcases Nat.lt_or_ge T.width 32 with hT | hT
  · rw [promoted_of_narrow hT]
    exact Nat.le_of_lt hT
  · rw [promoted_of_wide hT]

/-- Half of the number of operands that a division has room for. -/
theorem bits_eq (T : IntType) (size : Nat) :
    (2 : Int) ^ T.bits size = 2 * 2 ^ (T.bits size - 1) := by
  have hbits : T.bits size - 1 + 1 = T.bits size := by
    have hle := T.width_le_bits size
    rcases T.width_mem with h | h | h | h <;> omega
  conv_lhs => rw [← hbits, pow_succ, Int.mul_comm]

theorem modulus_dvd (T : IntType) {k : Nat} (h : T.width ≤ k) : T.modulus ∣ 2 ^ k := pow_dvd_pow 2 h

/-- A promoted value is in the range of the division. -/
theorem Has.bits (h : T.promoted.Has n) (size : Nat) :
    -2 ^ T.bits size ≤ n ∧ n < 2 ^ T.bits size := by
  have hlo := T.promoted.lo_between
  have hle : T.promoted.modulus ≤ 2 ^ T.bits size :=
    pow_le_pow_right₀ (by decide) (Nat.le_max_left _ _)
  obtain ⟨hlow, hhigh⟩ := h
  omega

/-- Only a type with a sign has negative values. -/
theorem lo_of_neg (hn : n < 0) (h : T.Has n) : T.lo = -2 ^ (T.width - 1) := by
  have hlow := h.1
  unfold lo at hlow ⊢
  split at hlow <;> rename_i hs
  · rw [if_pos hs]
  · omega

theorem arith_of_has (h : T.promoted.Has n) : T.arith n = some n := by
  unfold arith
  rw [if_pos h, wrap_of_has h, ite_self]

/-- Out of range, a sum of a wide type is undefined if the type has a sign, and wraps if not. -/
theorem arith_of_not_has (hs : T.signed = true) (hT : 32 ≤ T.width) (h : ¬ T.Has n) :
    T.arith n = none := by
  rw [arith, promoted_of_wide hT, if_pos hs, if_neg h]

theorem arith_of_unsigned (hs : T.signed = false) (hT : 32 ≤ T.width) :
    T.arith n = some (T.wrap n) := by
  rw [arith, promoted_of_wide hT, hs, if_neg Bool.false_ne_true]

/-! ## Means -/

variable {d : Nat} {low high : Int}

/-- A truncated quotient lies where the exact one does, between integers. -/
theorem tdiv_between (hd : 0 < d) (hlow : d * low ≤ n) (hhigh : n ≤ d * high) :
    low ≤ n.tdiv d ∧ n.tdiv d ≤ high := by
  have hd' : (0 : Int) < d := Int.natCast_pos.mpr hd
  have hcomm (k : Int) : d * k = k * d := Int.mul_comm _ _
  rcases Int.le_total 0 n with hn | hn
  · rw [Int.tdiv_eq_ediv_of_nonneg hn]
    refine ⟨Int.le_ediv_of_mul_le hd' (hcomm low ▸ hlow), ?_⟩
    exact Int.ediv_le_of_le_mul hd' (hcomm high ▸ hhigh)
  · have hneg : n.tdiv d = -((-n) / d) := by
      rw [← Int.tdiv_eq_ediv_of_nonneg (Int.neg_nonneg_of_nonpos hn), Int.neg_tdiv, Int.neg_neg]
    have hupper : -n / d ≤ -low := Int.ediv_le_of_le_mul hd' (by rw [Int.neg_mul, ← hcomm]; omega)
    have hlower : -high ≤ -n / d := Int.le_ediv_of_mul_le hd' (by rw [Int.neg_mul, ← hcomm]; omega)
    omega

/-- A number that is not negative is divided as it is. -/
theorem quotient_of_nonneg {size : Nat} (hn : 0 ≤ n) (hlt : n < 2 ^ T.bits size) :
    T.quotient size n d = n.tdiv d := by
  unfold quotient
  split
  · rfl
  · rw [Int.emod_eq_of_lt hn hlt, Int.tdiv_eq_ediv_of_nonneg hn]

/-- What the quotient of a negative number is too large by, when it is divided as unsigned. -/
def excess (bits d : Nat) (n : Int) : Int :=
  if -n % d ≤ 2 ^ bits % (d : Int) then 2 ^ bits / (d : Int) else 2 ^ bits / (d : Int) - 1

theorem emod_div_of_neg {bits : Nat} (hd : 0 < d) (hn : n < 0) (hlow : -2 ^ bits ≤ n) :
    n % 2 ^ bits / d = n.tdiv d + excess bits d n := by
  have hd' : (0 : Int) < d := Int.natCast_pos.mpr hd
  have hwrap : n % 2 ^ bits = n + 2 ^ bits := by
    rw [← Int.add_emod_right, Int.emod_eq_of_lt (by omega) (by omega)]
  have htrunc : n.tdiv d = -(-n / d) := by
    rw [← Int.tdiv_eq_ediv_of_nonneg (by omega), Int.neg_tdiv, Int.neg_neg]
  have hn' := Int.mul_ediv_add_emod (-n) d
  have hp' := Int.mul_ediv_add_emod (2 ^ bits) d
  have hnr := Int.emod_lt_of_pos (-n) hd'
  have hpr := Int.emod_lt_of_pos (2 ^ bits) hd'
  have hnr' := Int.emod_nonneg (-n) hd'.ne'
  have hpr' := Int.emod_nonneg (2 ^ bits) hd'.ne'
  -- the quotient of the sum is that of the parts, less one where the remainders borrow
  have hsum : n + 2 ^ bits =
      (2 ^ bits % (d : Int) - -n % d) + d * (2 ^ bits / (d : Int) - -n / d) := by
    rw [Int.mul_sub]
    omega
  rw [hwrap, htrunc, hsum, Int.add_mul_ediv_left _ _ hd'.ne', excess]
  split
  · rw [Int.ediv_eq_zero_of_lt (by omega) (by omega)]
    omega
  · have hborrow : (2 ^ bits % (d : Int) - -n % d) / d = -1 :=
      Int.ediv_eq_neg_one_of_neg_of_le (by omega) (by omega)
    rw [hborrow]
    omega

/-- Divided as unsigned and converted back, a negative number gives its truncated quotient iff the
modulus divides the excess. -/
theorem wrap_eq_tdiv_iff {bits : Nat} (hd : 0 < d) (hn : n < 0) (hlow : -2 ^ bits ≤ n)
    (hhas : T.Has (n.tdiv d)) :
    T.wrap (n % 2 ^ bits / d) = n.tdiv d ↔ T.modulus ∣ excess bits d n := by
  rw [emod_div_of_neg hd hn hlow]
  conv_lhs => rhs; rw [← wrap_of_has hhas]
  rw [wrap_eq_iff, add_sub_cancel_left]

end IntType

end TiraRdp.Lib
