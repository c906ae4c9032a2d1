import Mathlib.Data.Nat.Bitwise
import Mathlib.Tactic.Common
import TiraRdp.Lib.Word

/-!
# Strings of bits

A string of bits, the most significant one first, and the number it spells: `toBits n v` are the
lower `n` bits of `v`, `ofBits` reads them back, and `bitsOf` are the bits of a string of bytes.
`peek n bits` is the number that a reader finds in the next `n` bits when it takes zeros for those
that are not there.

Results: the two codecs are inverse to each other (`ofBits_toBits`, `toBits_ofBits`) and go along
with appending (`ofBits_append`, `toBits_add`), bytes can be told from their bits
(`bitsOf_eq_append`), and `peek` of a string that begins with a code is that code (`peek_toBits`).
-/

namespace TiraRdp.Lib

/-- The number that the bits spell. -/
def ofBits (bits : List Bool) : Nat := bits.foldl (fun n b => 2 * n + b.toNat) 0

/-- The lower `n` bits of `v`. -/
def toBits : Nat → Nat → List Bool
  | 0, _ => []
  | n + 1, v => v.testBit n :: toBits n v

/-- The bits of a string of bytes. -/
def bitsOf (bs : Bytes) : List Bool := bs.flatMap fun b => toBits 8 b.toNat

variable {n v : Nat} {bits : List Bool}

@[simp] theorem toBits_length (n v : Nat) : (toBits n v).length = n := by
  induction n with
  | zero => rfl
  | succ n ih => rw [toBits, List.length_cons, ih]

@[simp] theorem bitsOf_nil : bitsOf [] = [] := rfl

@[simp] theorem bitsOf_cons (b : UInt8) (bs : Bytes) :
    bitsOf (b :: bs) = toBits 8 b.toNat ++ bitsOf bs := rfl

@[simp] theorem bitsOf_append (as bs : Bytes) : bitsOf (as ++ bs) = bitsOf as ++ bitsOf bs :=
  List.flatMap_append

@[simp] theorem bitsOf_length (bs : Bytes) : (bitsOf bs).length = 8 * bs.length := by
  induction bs with
  | nil => rfl
  | cons b bs ih =>
    rw [bitsOf_cons, List.length_append, toBits_length, ih, List.length_cons]
    omega

private theorem foldl_bits (bits : List Bool) (n : Nat) :
    bits.foldl (fun n b => 2 * n + b.toNat) n = n * 2 ^ bits.length + ofBits bits := by
  unfold ofBits
  induction bits generalizing n with
  | nil => simp
  | cons b bits ih =>
    rw [List.foldl_cons, List.foldl_cons, ih, ih (2 * 0 + b.toNat), List.length_cons, Nat.pow_succ']
    grind

theorem ofBits_append (as bs : List Bool) :
    ofBits (as ++ bs) = ofBits as * 2 ^ bs.length + ofBits bs := by
  rw [ofBits, List.foldl_append, foldl_bits]
  rfl

theorem ofBits_cons (b : Bool) (bits : List Bool) :
    ofBits (b :: bits) = b.toNat * 2 ^ bits.length + ofBits bits := by
  rw [ofBits, List.foldl_cons, foldl_bits]
  simp

theorem ofBits_lt (bits : List Bool) : ofBits bits < 2 ^ bits.length := by
  induction bits with
  | nil => decide
  | cons b bits ih =>
    have hb := Bool.toNat_le b
    have hle : b.toNat * 2 ^ bits.length ≤ 1 * 2 ^ bits.length := Nat.mul_le_mul_right _ hb
    rw [ofBits_cons, List.length_cons, Nat.pow_succ]
    omega

theorem ofBits_toBits (n v : Nat) : ofBits (toBits n v) = v % 2 ^ n := by
  induction n with
  | zero => simp [toBits, ofBits, Nat.mod_one]
  | succ n ih =>
    rw [toBits, ofBits_cons, ih, toBits_length, Nat.toNat_testBit, Nat.mod_pow_succ]
    grind

theorem ofBits_toBits_of_lt (h : v < 2 ^ n) : ofBits (toBits n v) = v := by
  rw [ofBits_toBits, Nat.mod_eq_of_lt h]

/-- A string of bits is fixed by its length and the number that it spells. -/
theorem ofBits_inj {as bs : List Bool} (hlen : as.length = bs.length)
    (h : ofBits as = ofBits bs) : as = bs := by
  induction as generalizing bs with
  | nil => exact (List.length_eq_zero_iff.mp hlen.symm).symm
  | cons a as ih =>
    cases bs with
    | nil => simp at hlen
    | cons b bs =>
      have hlen' : as.length = bs.length := Nat.succ.inj hlen
      have ha := ofBits_lt as
      have hb := ofBits_lt bs
      rw [ofBits_cons, ofBits_cons, hlen'] at h
      rw [hlen'] at ha
      have hhead : a = b := by
        cases a <;> cases b <;> simp_all <;> omega
      subst hhead
      rw [ih hlen' (by omega)]

theorem toBits_ofBits (bits : List Bool) : toBits bits.length (ofBits bits) = bits :=
  ofBits_inj (toBits_length _ _) (ofBits_toBits_of_lt (ofBits_lt bits))

/-- Bits above those that are taken do not count. -/
theorem toBits_mod (n v : Nat) : toBits n (v % 2 ^ n) = toBits n v :=
  ofBits_inj (by simp) (by rw [ofBits_toBits, ofBits_toBits, Nat.mod_mod])

/-- The bits of the upper part, then those of the lower. -/
theorem toBits_add (m n v : Nat) : toBits (m + n) v = toBits m (v / 2 ^ n) ++ toBits n v := by
  induction m with
  | zero => rw [Nat.zero_add, toBits, List.nil_append]
  | succ m ih =>
    rw [Nat.succ_add, toBits, toBits, ih, List.cons_append, Nat.testBit_div_two_pow]

/-- Two numbers side by side. -/
theorem toBits_mul_add {m n a b : Nat} (hb : b < 2 ^ n) :
    toBits (m + n) (a * 2 ^ n + b) = toBits m a ++ toBits n b := by
  have hdiv : (a * 2 ^ n + b) / 2 ^ n = a := by
    rw [Nat.mul_comm, Nat.mul_add_div (Nat.two_pow_pos n), Nat.div_eq_of_lt hb, Nat.add_zero]
  have hmod : (a * 2 ^ n + b) % 2 ^ n = b := by
    rw [Nat.mul_comm, Nat.mul_add_mod, Nat.mod_eq_of_lt hb]
  rw [toBits_add, hdiv, ← toBits_mod n (a * 2 ^ n + b), hmod]

theorem toBits_zero (n : Nat) : toBits n 0 = List.replicate n false := by
  induction n with
  | zero => rfl
  | succ n ih => rw [toBits, ih, Nat.zero_testBit, List.replicate_succ]

/-- Bytes that begin with the bits of others begin with those. -/
theorem bitsOf_eq_append {as bs : Bytes} {rest : List Bool} (h : bitsOf as = bitsOf bs ++ rest) :
    ∃ cs, as = bs ++ cs ∧ bitsOf cs = rest := by
  induction bs generalizing as with
  | nil => exact ⟨as, rfl, h⟩
  | cons b bs ih =>
    cases as with
    | nil =>
      have hlen := congrArg List.length h
      rw [List.length_append, bitsOf_length, bitsOf_length, List.length_cons, List.length_nil] at hlen
      omega
    | cons a as =>
      rw [bitsOf_cons, bitsOf_cons, List.append_assoc] at h
      obtain ⟨hhead, htail⟩ := List.append_inj h (by simp)
      have hbyte : a = b := by
        have hvalue := congrArg ofBits hhead
        rw [ofBits_toBits_of_lt a.toNat_lt, ofBits_toBits_of_lt b.toNat_lt] at hvalue
        exact UInt8.toNat_inj.mp hvalue
      obtain ⟨cs, rfl, hcs⟩ := ih htail
      exact ⟨cs, by rw [hbyte, List.cons_append], hcs⟩

/-! ## Looking ahead -/

/-- The number in the next `n` bits, zeros taken for those behind the end. -/
def peek (n : Nat) (bits : List Bool) : Nat := ofBits ((bits ++ List.replicate n false).take n)

theorem peek_lt (n : Nat) (bits : List Bool) : peek n bits < 2 ^ n := by
  have h := ofBits_lt ((bits ++ List.replicate n false).take n)
  rwa [List.length_take, List.length_append, List.length_replicate, Nat.min_eq_left (by omega)] at h

theorem peek_of_le (h : n ≤ bits.length) : peek n bits = ofBits (bits.take n) := by
  unfold peek
  rw [List.take_append_of_le_length h]

/-- A look at `m + n` bits is one at `m` and one at the `n` behind them. -/
theorem peek_add (m n : Nat) (bits : List Bool) :
    peek (m + n) bits = peek m bits * 2 ^ n + peek n (bits.drop m) := by
  have hsplit (k : Nat) (xs : List Bool) :
      (xs ++ List.replicate (k + n) false).take n = (xs ++ List.replicate n false).take n := by
    rw [Nat.add_comm, ← List.replicate_append_replicate, ← List.append_assoc,
      List.take_append_of_le_length (by simp)]
  have hfirst : (bits ++ List.replicate (m + n) false).take m =
      (bits ++ List.replicate m false).take m := by
    rw [← List.replicate_append_replicate, ← List.append_assoc,
      List.take_append_of_le_length (by simp)]
  have hsecond : ((bits ++ List.replicate (m + n) false).drop m).take n =
      (bits.drop m ++ List.replicate n false).take n := by
    rw [List.drop_append, List.drop_replicate]
    obtain h | h := Nat.le_total m bits.length
    · rw [Nat.sub_eq_zero_of_le h, Nat.sub_zero]
      exact hsplit m _
    · rw [List.drop_eq_nil_of_le h, List.nil_append, List.nil_append, List.take_replicate,
        List.take_replicate, Nat.min_self, Nat.min_eq_left (by omega)]
  unfold peek
  rw [List.take_add, ofBits_append, hfirst, hsecond, List.length_take, List.length_append,
    List.length_replicate, Nat.min_eq_left (by omega)]

/-- What a string of bits begins with is found there. -/
theorem peek_toBits (h : v < 2 ^ n) (rest : List Bool) : peek n (toBits n v ++ rest) = v := by
  rw [peek_of_le (by simp), List.take_left' (toBits_length n v), ofBits_toBits_of_lt h]

/-- The first `m` of the next `m + n` bits. -/
theorem peek_div (m n : Nat) (bits : List Bool) : peek (m + n) bits / 2 ^ n = peek m bits := by
  rw [peek_add, Nat.mul_comm, Nat.mul_add_div (Nat.two_pow_pos n),
    Nat.div_eq_of_lt (peek_lt n _), Nat.add_zero]

/-- The last `n` of the next `m + n` bits. -/
theorem peek_mod (m n : Nat) (bits : List Bool) :
    peek (m + n) bits % 2 ^ n = peek n (bits.drop m) := by
  rw [peek_add, Nat.mul_comm, Nat.mul_add_mod, Nat.mod_eq_of_lt (peek_lt n _)]

theorem peek_nil (n : Nat) : peek n [] = 0 := by
  unfold peek
  rw [List.nil_append, List.take_replicate, Nat.min_self, ← toBits_zero, ofBits_toBits,
    Nat.zero_mod]

end TiraRdp.Lib
