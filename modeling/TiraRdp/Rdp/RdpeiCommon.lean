import Mathlib.Data.Nat.Bitwise
import TiraRdp.Lib.Counted

/-!
# `rdpei_common`: the numbers of the input channel

The readers and writers of `Rdp/src/channels/rdpei/rdpei_common.c:30-590`. A reader looks at the
remaining length before every byte, so a stream that is read is what is left of it. A writer that
answers `FALSE` has not written anything; one that answers `TRUE` is here the bytes that it has
written.

An `INT32` is an integer: where the source's own negation or sum would leave its range, the source
has no meaning.

Results: what a reader makes of what its writer has written.
* `carries_2byte_unsigned`, `carries_2byte_signed`, `carries_4byte_unsigned`: the number, as far as
  the writer goes.
* `carries_4byte_signed`: the number, but from -31 to -1 without its sign (`heard`).
* `carries_8byte_unsigned`: the number without the bits that the writer masks (`kept`).
-/

namespace TiraRdp.Rdpei

open Lib Counted

def BYTE (value : Nat) : UInt8 := UInt8.ofNat value

/-! ## The readers -/

def rdpei_read_2byte_unsigned : Bytes → Option (Nat × Bytes)
  | [] => none
  | byte :: s =>
    if byte.toNat &&& 0x80 ≠ 0 then
      match s with
      | [] => none
      | low :: s => some ((byte.toNat &&& 0x7F) <<< 8 ||| low.toNat, s)
    else some (byte.toNat &&& 0x7F, s)

def rdpei_read_2byte_signed : Bytes → Option (Int × Bytes)
  | [] => none
  | byte :: s =>
    let negative := byte.toNat &&& 0x40 ≠ 0
    let value := byte.toNat &&& 0x3F
    if byte.toNat &&& 0x80 ≠ 0 then
      match s with
      | [] => none
      | low :: s =>
        let value := value <<< 8 ||| low.toNat
        some (if negative then (value : Int) * -1 else value, s)
    else some (if negative then (value : Int) * -1 else value, s)

/-- `byte << 8 * k`: an `int` for `k = 3`, which a `UINT64` extends with its sign, and a `UINT64`
beyond. -/
def shifted (k : Nat) (byte : UInt8) : Nat :=
  if k = 3 ∧ 0x80 ≤ byte.toNat then 0xFFFFFFFF00000000 ||| byte.toNat <<< 24
  else byte.toNat <<< (8 * k)

/-- `*value |= byte << …`, byte after byte. -/
def orBytes (value : Nat) : Bytes → Nat
  | [] => value
  | byte :: s => orBytes (value ||| shifted s.length byte) s

/-- The `switch` of the readers that count: `tag` is the count in the first byte, `mask` what it has
of the value. The first byte, the value, and the rest of the stream. -/
def readCounted (tag shift mask : Nat) : Bytes → Option (UInt8 × Nat × Bytes)
  | [] => none
  | byte :: s =>
    let count := (byte.toNat &&& tag) >>> shift
    if s.length < count then none
    else some (byte, orBytes ((byte.toNat &&& mask) <<< (8 * count)) (s.take count), s.drop count)

def rdpei_read_4byte_unsigned (s : Bytes) : Option (Nat × Bytes) :=
  (readCounted 0xC0 6 0x3F s).map fun (_, value, s) => (value, s)

def rdpei_read_4byte_signed (s : Bytes) : Option (Int × Bytes) :=
  (readCounted 0xC0 6 0x1F s).map fun (byte, value, s) =>
    (if byte.toNat &&& 0x20 ≠ 0 then (value : Int) * -1 else value, s)

def rdpei_read_8byte_unsigned (s : Bytes) : Option (Nat × Bytes) :=
  (readCounted 0xE0 5 0x1F s).map fun (_, value, s) => (value, s)

/-! ## The writers -/

def rdpei_write_2byte_unsigned (value : Nat) : Option Bytes :=
  if value > 0x7FFF then none
  else if value ≥ 0x7F then some [BYTE ((value &&& 0x7F00) >>> 8 ||| 0x80), BYTE (value &&& 0xFF)]
  else some [BYTE (value &&& 0x7F)]

def rdpei_write_2byte_signed (value : Int) : Option Bytes :=
  let sign := if value < 0 then 0x40 else 0
  let value := value.natAbs
  if value > 0x3FFF then none
  else if value ≥ 0x3F then
    some [BYTE ((value &&& 0x3F00) >>> 8 ||| sign ||| 0x80), BYTE (value &&& 0xFF)]
  else some [BYTE (value &&& 0x3F ||| sign)]

/-- The branch for four bytes has the condition of the one before it. -/
def rdpei_write_4byte_unsigned (value : Nat) : Option Bytes :=
  if value ≤ 0x3F then some [BYTE value]
  else if value ≤ 0x3FFF then some [BYTE (value >>> 8 &&& 0x3F ||| 0x40), BYTE (value &&& 0xFF)]
  else if value ≤ 0x3FFFFF then
    some [BYTE (value >>> 16 &&& 0x3F ||| 0x80), BYTE (value >>> 8 &&& 0xFF), BYTE (value &&& 0xFF)]
  else if value ≤ 0x3FFFFF then
    some [BYTE (value >>> 24 &&& 0x3F ||| 0xC0), BYTE (value >>> 16 &&& 0xFF),
      BYTE (value >>> 8 &&& 0xFF), BYTE (value &&& 0xFF)]
  else none

/-- In the first branch the sign goes to `byte`, and `value` is written. -/
def rdpei_write_4byte_signed (value : Int) : Option Bytes :=
  let sign := if value < 0 then 0x20 else 0
  let value := value.natAbs
  if value ≤ 0x1F then some [BYTE value]
  else if value ≤ 0x1FFF then
    some [BYTE (value >>> 8 &&& 0x1F ||| sign ||| 0x40), BYTE (value &&& 0xFF)]
  else if value ≤ 0x1FFFFF then
    some [BYTE (value >>> 16 &&& 0x1F ||| sign ||| 0x80), BYTE (value >>> 8 &&& 0xFF),
      BYTE (value &&& 0xFF)]
  else if value ≤ 0x1FFFFF then
    some [BYTE (value >>> 24 &&& 0x1F ||| sign ||| 0xC0), BYTE (value >>> 16 &&& 0xFF),
      BYTE (value >>> 8 &&& 0xFF), BYTE (value &&& 0xFF)]
  else none

def rdpei_write_8byte_unsigned (value : Nat) : Option Bytes :=
  if value ≤ 0x1F then some [BYTE (value &&& 0x1F)]
  else if value ≤ 0x1FFF then some [BYTE (value >>> 8 &&& 0x1F ||| 1 <<< 5), BYTE (value &&& 0xFF)]
  else if value ≤ 0x1FFFFF then
    some [BYTE (value >>> 16 &&& 0x1F ||| 2 <<< 5), BYTE (value >>> 8 &&& 0xFF), BYTE (value &&& 0xFF)]
  else if value ≤ 0x1FFFFF then
    some [BYTE (value >>> 24 &&& 0x1F ||| 3 <<< 5), BYTE (value >>> 16 &&& 0xFF),
      BYTE (value >>> 8 &&& 0xFF), BYTE (value &&& 0xFF)]
  else if value ≤ 0x1FFFFFFF then
    some [BYTE (value >>> 32 &&& 0x1F ||| 4 <<< 5), BYTE (value >>> 24 &&& 0x1F),
      BYTE (value >>> 16 &&& 0xFF), BYTE (value >>> 8 &&& 0xFF), BYTE (value &&& 0xFF)]
  else if value ≤ 0x1FFFFFFFFF then
    some [BYTE (value >>> 40 &&& 0x1F ||| 5 <<< 5), BYTE (value >>> 32 &&& 0x1F),
      BYTE (value >>> 24 &&& 0x1F), BYTE (value >>> 16 &&& 0xFF), BYTE (value >>> 8 &&& 0xFF),
      BYTE (value &&& 0xFF)]
  else if value ≤ 0x1FFFFFFFFFFF then
    some [BYTE (value >>> 48 &&& 0x1F ||| 6 <<< 5), BYTE (value >>> 40 &&& 0x1F),
      BYTE (value >>> 32 &&& 0x1F), BYTE (value >>> 24 &&& 0x1F), BYTE (value >>> 16 &&& 0xFF),
      BYTE (value >>> 8 &&& 0xFF), BYTE (value &&& 0xFF)]
  else if value ≤ 0x1FFFFFFFFFFFFF then
    some [BYTE (value >>> 56 &&& 0x1F ||| 7 <<< 5), BYTE (value >>> 48 &&& 0x1F),
      BYTE (value >>> 40 &&& 0x1F), BYTE (value >>> 32 &&& 0x1F), BYTE (value >>> 24 &&& 0x1F),
      BYTE (value >>> 16 &&& 0xFF), BYTE (value >>> 8 &&& 0xFF), BYTE (value &&& 0xFF)]
  else none

/-! ## The readers decode -/

theorem and_low (x k : Nat) : x &&& 2 ^ k - 1 = x % 2 ^ k := Nat.and_two_pow_sub_one_eq_mod x k

theorem and_mask_shift (x i j : Nat) : (x &&& (2 ^ i - 1) * 2 ^ j) >>> j = x / 2 ^ j % 2 ^ i := by
  have hmask : ((2 ^ i - 1) * 2 ^ j) >>> j = 2 ^ i - 1 := by
    rw [← Nat.shiftLeft_eq, Nat.shiftLeft_shiftRight]
  rw [Nat.shiftRight_and_distrib, hmask, and_low, Nat.shiftRight_eq_div_pow]

/-- The upper bits of a byte. -/
theorem byte_count (b : UInt8) (i j : Nat) (h : i + j = 8) :
    (b.toNat &&& (2 ^ i - 1) * 2 ^ j) >>> j = b.toNat / 2 ^ j := by
  have hlt : b.toNat / 2 ^ j < 2 ^ i := by
    rw [Nat.div_lt_iff_lt_mul (Nat.two_pow_pos j), ← Nat.pow_add, h]
    exact b.toNat_lt
  rw [and_mask_shift, Nat.mod_eq_of_lt hlt]

/-- One bit. -/
theorem and_bit_ne_zero (x i : Nat) : x &&& 2 ^ i ≠ 0 ↔ x / 2 ^ i % 2 = 1 := by
  rw [Nat.and_two_pow, Nat.testBit_eq_decide_div_mod_eq]
  rcases Nat.mod_two_eq_zero_or_one (x / 2 ^ i) with hbit | hbit
  · simp [hbit]
  · simp [hbit]

theorem shl_or (x : Nat) (b : UInt8) : x <<< 8 ||| b.toNat = x * 256 + b.toNat := by
  rw [← Nat.shiftLeft_add_eq_or_of_lt (i := 8) b.toNat_lt, Nat.shiftLeft_eq]

/-- No byte that an `int` is shifted out of is in the upper half. -/
def Plain : Bytes → Prop
  | [] => True
  | b :: bs => (bs.length = 3 → b.toNat < 0x80) ∧ Plain bs

theorem plain_of_length_le {bs : Bytes} (h : bs.length ≤ 3) : Plain bs := by
  induction bs with
  | nil => trivial
  | cons b bs ih =>
    rw [List.length_cons] at h
    exact ⟨by omega, ih (by omega)⟩

theorem plain_be {value : Nat} (h : value / 256 ^ 3 % 256 < 0x80) (n : Nat) :
    Plain (be n value) := by
  induction n with
  | zero => trivial
  | succ n ih =>
    refine ⟨fun hn => ?_, ih⟩
    rw [be_length] at hn
    rw [hn, UInt8.toNat_ofNat']
    exact h

/-- The bytes after the first one, most significant byte first. -/
theorem orBytes_eq {bs : Bytes} (h : Plain bs) (value : Nat) :
    orBytes (value <<< (8 * bs.length)) bs = ofBe value bs := by
  induction bs generalizing value with
  | nil => rfl
  | cons b bs ih =>
    obtain ⟨hthree, hplain⟩ := h
    have hshifted : shifted bs.length b = b.toNat <<< (8 * bs.length) := by
      unfold shifted
      rw [if_neg]
      rintro ⟨hlength, hle⟩
      exact absurd (hthree hlength) (Nat.not_lt.mpr hle)
    have hfirst : value <<< (8 * (bs.length + 1)) = (value <<< 8) <<< (8 * bs.length) := by
      rw [Nat.mul_add_one, Nat.add_comm, Nat.shiftLeft_add]
    rw [orBytes, List.length_cons, hfirst, hshifted, ← Nat.shiftLeft_or_distrib, shl_or,
      ih hplain, ofBe]

/-- A reader that counts takes the bytes that it has counted. -/
theorem readCounted_eq {tag shift mask span : Nat} {b : UInt8} {s : Bytes}
    (htag : (b.toNat &&& tag) >>> shift = b.toNat / span)
    (hplain : Plain (s.take (b.toNat / span))) :
    readCounted tag shift mask (b :: s) =
      if s.length < b.toNat / span then none
      else some (b, ofBe (b.toNat &&& mask) (s.take (b.toNat / span)), s.drop (b.toNat / span)) := by
  rw [readCounted, htag]
  split_ifs with hlength
  · rfl
  · have htake : (s.take (b.toNat / span)).length = b.toNat / span := by
      rw [List.length_take]
      omega
    have hor := orBytes_eq hplain (b.toNat &&& mask)
    rw [htake] at hor
    rw [hor]

/-- The first byte of the formats whose highest bit counts. -/
theorem and_high (b : UInt8) : b.toNat &&& 0x80 ≠ 0 ↔ 128 ≤ b.toNat := by
  have hlt := b.toNat_lt
  have hbit : b.toNat &&& 0x80 ≠ 0 ↔ b.toNat / 2 ^ 7 % 2 = 1 := and_bit_ne_zero _ 7
  rw [hbit]
  omega

theorem rdpei_read_2byte_unsigned_eq (s : Bytes) :
    rdpei_read_2byte_unsigned s = (decode 128 s).map fun (x, s) => (x.2, s) := by
  match s with
  | [] => rfl
  | b :: s =>
    have hlt := b.toNat_lt
    have hlow : b.toNat &&& 0x7F = b.toNat % 128 := and_low _ 7
    by_cases hb : 128 ≤ b.toNat
    · have hcount : b.toNat / 128 = 1 := by omega
      simp only [rdpei_read_2byte_unsigned, decode, and_high, hb, hlow, hcount, if_true, shl_or]
      cases s with
      | nil => rfl
      | cons low s => rfl
    · have hcount : b.toNat / 128 = 0 := by omega
      simp only [rdpei_read_2byte_unsigned, decode, and_high, hb, hlow, hcount, if_false]
      rfl

theorem rdpei_read_2byte_signed_eq (s : Bytes) :
    rdpei_read_2byte_signed s =
      (decode 128 s).map fun (x, s) => (toSigned (64 * 256 ^ x.1) x.2, s) := by
  match s with
  | [] => rfl
  | b :: s =>
    have hlt := b.toNat_lt
    have hlow : b.toNat &&& 0x3F = b.toNat % 64 := and_low _ 6
    have hsign : b.toNat &&& 0x40 ≠ 0 ↔ 64 ≤ b.toNat % 128 := by
      have hbit : b.toNat &&& 0x40 ≠ 0 ↔ b.toNat / 2 ^ 6 % 2 = 1 := and_bit_ne_zero _ 6
      rw [hbit]
      omega
    have hvalue := toSigned_ofBe 64 (by decide) b.toNat
    by_cases hb : 128 ≤ b.toNat
    · have hcount : b.toNat / 128 = 1 := by omega
      simp only [rdpei_read_2byte_signed, decode, and_high, hb, hlow, hcount, hsign,
        if_true, shl_or]
      cases s with
      | nil => rfl
      | cons low s => exact congrArg (fun x => some (x, s)) (hvalue [low]).symm
    · have hcount : b.toNat / 128 = 0 := by omega
      simp only [rdpei_read_2byte_signed, decode, and_high, hb, hlow, hcount, hsign, if_false]
      exact congrArg (fun x => some (x, s)) (hvalue []).symm

theorem rdpei_read_4byte_unsigned_eq (s : Bytes) :
    rdpei_read_4byte_unsigned s = (decode 64 s).map fun (x, s) => (x.2, s) := by
  cases s with
  | nil => rfl
  | cons b s =>
    have hlt := b.toNat_lt
    have htag : (b.toNat &&& 0xC0) >>> 6 = b.toNat / 64 := byte_count b 2 6 rfl
    have hlow : b.toNat &&& 0x3F = b.toNat % 64 := and_low _ 6
    have hplain : Plain (s.take (b.toNat / 64)) := by
      apply plain_of_length_le
      rw [List.length_take]
      omega
    rw [rdpei_read_4byte_unsigned, readCounted_eq htag hplain, hlow, decode]
    split_ifs
    · rfl
    · rfl

theorem rdpei_read_4byte_signed_eq (s : Bytes) :
    rdpei_read_4byte_signed s =
      (decode 64 s).map fun (x, s) => (toSigned (32 * 256 ^ x.1) x.2, s) := by
  cases s with
  | nil => rfl
  | cons b s =>
    have hlt := b.toNat_lt
    have htag : (b.toNat &&& 0xC0) >>> 6 = b.toNat / 64 := byte_count b 2 6 rfl
    have hlow : b.toNat &&& 0x1F = b.toNat % 32 := and_low _ 5
    have hsign : b.toNat &&& 0x20 ≠ 0 ↔ 32 ≤ b.toNat % 64 := by
      have hbit : b.toNat &&& 0x20 ≠ 0 ↔ b.toNat / 2 ^ 5 % 2 = 1 := and_bit_ne_zero _ 5
      rw [hbit]
      omega
    have hplain : Plain (s.take (b.toNat / 64)) := by
      apply plain_of_length_le
      rw [List.length_take]
      omega
    rw [rdpei_read_4byte_signed, readCounted_eq htag hplain, hlow, decode]
    split_ifs with hlength
    · rfl
    · have htake : (s.take (b.toNat / 64)).length = b.toNat / 64 := by
        rw [List.length_take]
        omega
      have hvalue := toSigned_ofBe 32 (by decide) b.toNat (s.take (b.toNat / 64))
      rw [htake] at hvalue
      simp only [Option.map_some, hsign]
      rw [hvalue]

/-! ## The writers encode -/

theorem or_tag {x i : Nat} (h : x < 2 ^ i) (a : Nat) : x ||| 2 ^ i * a = 2 ^ i * a + x := by
  rw [Nat.or_comm, Nat.two_pow_add_eq_or_of_lt h]

theorem BYTE_eq {x y : Nat} (h : x % 256 = y % 256) : BYTE x = UInt8.ofNat y := by
  rw [BYTE, ← UInt8.toNat_inj, UInt8.toNat_ofNat', UInt8.toNat_ofNat']
  exact h

/-- A byte of the value. -/
theorem low_byte (value k : Nat) : BYTE (value >>> k &&& 0xFF) = UInt8.ofNat (value / 2 ^ k) := by
  have hlow : value >>> k &&& 0xFF = value >>> k % 2 ^ 8 := and_low _ 8
  apply BYTE_eq
  rw [hlow, Nat.shiftRight_eq_div_pow]
  omega

/-- The first byte. -/
theorem high_byte {value i k : Nat} (a : Nat) (h : value / 2 ^ k < 2 ^ i) :
    BYTE (value >>> k &&& 2 ^ i - 1 ||| 2 ^ i * a) = UInt8.ofNat (2 ^ i * a + value / 2 ^ k) := by
  rw [and_low, or_tag (Nat.mod_lt _ (Nat.two_pow_pos i)), Nat.shiftRight_eq_div_pow,
    Nat.mod_eq_of_lt h]
  rfl

/-- The sign bit. -/
theorem or_sign {x i : Nat} (h : x < 2 ^ i) (negative : Prop) [Decidable negative] :
    x ||| (if negative then 2 ^ i else 0) = (if negative then 2 ^ i else 0) + x := by
  split_ifs
  · have hone := or_tag h 1
    rwa [Nat.mul_one] at hone
  · rw [Nat.or_zero, Nat.zero_add]

/-- The sign bit, and the count above it. -/
theorem or_sign_tag {x i : Nat} (h : x < 2 ^ i) (negative : Prop) [Decidable negative] (a : Nat) :
    x ||| (if negative then 2 ^ i else 0) ||| 2 ^ (i + 1) * a =
      2 ^ (i + 1) * a + ((if negative then 2 ^ i else 0) + x) := by
  have hlt : (if negative then 2 ^ i else 0) + x < 2 ^ (i + 1) := by
    rw [Nat.pow_succ]
    split_ifs
    all_goals omega
  rw [or_sign h, or_tag hlt]

theorem carries_2byte_unsigned {value : Nat} (h : value ≤ 0x7FFF) :
    Carries rdpei_read_2byte_unsigned 2 value (rdpei_write_2byte_unsigned value) := by
  have hencode (c : Nat) (hc : c ≤ 1) (hvalue : value < 128 * 256 ^ c) :
      Carries rdpei_read_2byte_unsigned 2 value (some (encode 128 c value)) :=
    carries_encode (fun _ value => value) 128 c 2 rdpei_read_2byte_unsigned_eq (by omega) hvalue (by omega)
  unfold rdpei_write_2byte_unsigned
  rw [if_neg (by omega)]
  split_ifs with hlong
  · have hshift : (value &&& 0x7F00) >>> 8 = value / 2 ^ 8 % 2 ^ 7 := and_mask_shift value 7 8
    have htag : value / 2 ^ 8 % 2 ^ 7 ||| 0x80 = 128 + value / 2 ^ 8 % 2 ^ 7 :=
      or_tag (i := 7) (by omega) 1
    have hfirst : BYTE ((value &&& 0x7F00) >>> 8 ||| 0x80) =
        UInt8.ofNat (1 * 128 + value / 256 ^ 1) := by
      rw [hshift, htag]
      exact BYTE_eq (by omega)
    have hlow : BYTE (value &&& 0xFF) = UInt8.ofNat (value / 256 ^ 0) := low_byte value 0
    rw [hfirst, hlow]
    exact hencode 1 (by decide) (by omega)
  · have hlow : value &&& 0x7F = value % 128 := and_low value 7
    have hfirst : BYTE (value &&& 0x7F) = UInt8.ofNat (0 * 128 + value / 256 ^ 0) := by
      rw [hlow]
      exact BYTE_eq (by omega)
    rw [hfirst]
    exact hencode 0 (by decide) (by omega)

theorem carries_2byte_signed {value : Int} (h : value.natAbs ≤ 0x3FFF) :
    Carries rdpei_read_2byte_signed 2 value (rdpei_write_2byte_signed value) := by
  have hencode (c : Nat) (hc : c ≤ 1) (hvalue : value.natAbs < 64 * 256 ^ c) :
      Carries rdpei_read_2byte_signed 2 value (some (encode 128 c (ofSigned (64 * 256 ^ c) value))) := by
    have hlt := ofSigned_lt hvalue
    have hcarries := carries_encode (fun c value => toSigned (64 * 256 ^ c) value) 128 c 2
      rdpei_read_2byte_signed_eq (by omega)
      (show ofSigned (64 * 256 ^ c) value < 128 * 256 ^ c by omega) (by omega)
    rwa [toSigned_ofSigned hvalue] at hcarries
  unfold rdpei_write_2byte_signed
  dsimp only
  rw [if_neg (by omega)]
  by_cases hlong : value.natAbs ≥ 0x3F
  · have hshift : (value.natAbs &&& 0x3F00) >>> 8 = value.natAbs / 2 ^ 8 := by
      rw [← Nat.mod_eq_of_lt (show value.natAbs / 2 ^ 8 < 2 ^ 6 by omega)]
      exact and_mask_shift _ 6 8
    have hlow : BYTE (value.natAbs &&& 0xFF) = UInt8.ofNat (value.natAbs / 256 ^ 0) := low_byte _ 0
    have hcarries := hencode 1 (by decide) (by omega)
    rw [encode_ofSigned] at hcarries
    have htag : value.natAbs / 2 ^ 8 ||| (if value < 0 then 0x40 else 0) ||| 0x80 =
        128 + ((if value < 0 then 0x40 else 0) + value.natAbs / 2 ^ 8) :=
      or_sign_tag (i := 6) (by omega) (value < 0) 1
    rw [if_pos hlong, hshift, htag, hlow]
    exact hcarries
  · have hlow : value.natAbs &&& 0x3F = value.natAbs := by
      have hmask : value.natAbs &&& 0x3F = value.natAbs % 64 := and_low _ 6
      rw [hmask, Nat.mod_eq_of_lt (by omega)]
    have hcarries := hencode 0 (by decide) (by omega)
    rw [encode_ofSigned, Nat.zero_mul, Nat.zero_add, Nat.pow_zero, Nat.div_one] at hcarries
    have hsign : value.natAbs ||| (if value < 0 then 0x40 else 0) =
        (if value < 0 then 0x40 else 0) + value.natAbs := or_sign (i := 6) (by omega) (value < 0)
    rw [if_neg hlong, hlow, hsign]
    exact hcarries

/-- The sign of a small number is not written. -/
def heard (value : Int) : Int := if -0x1F ≤ value ∧ value < 0 then -value else value

/-- The sign of zero is not missed. -/
theorem heard_eq_iff {value : Int} : heard value = value ↔ ¬ (-0x1F ≤ value ∧ value < 0) := by
  unfold heard
  split_ifs
  all_goals omega

theorem carries_4byte_unsigned {value : Nat} (h : value ≤ 0x3FFFFF) :
    Carries rdpei_read_4byte_unsigned 3 value (rdpei_write_4byte_unsigned value) := by
  have hencode (c : Nat) (hc : c ≤ 2) (hvalue : value < 64 * 256 ^ c) :
      Carries rdpei_read_4byte_unsigned 3 value (some (encode 64 c value)) :=
    carries_encode (fun _ value => value) 64 c 3 rdpei_read_4byte_unsigned_eq (by omega) hvalue (by omega)
  have hlow : BYTE (value &&& 0xFF) = UInt8.ofNat (value / 2 ^ 0) := low_byte value 0
  unfold rdpei_write_4byte_unsigned
  split_ifs with h1 h2
  · have hcarries := hencode 0 (by decide) (by omega)
    rwa [encode, Nat.zero_mul, Nat.zero_add, Nat.pow_zero, Nat.div_one] at hcarries
  · have hhigh : BYTE (value >>> 8 &&& 0x3F ||| 0x40) = UInt8.ofNat (64 + value / 2 ^ 8) :=
      high_byte (i := 6) 1 (by omega)
    rw [hhigh, hlow]
    exact hencode 1 (by decide) (by omega)
  · have hhigh : BYTE (value >>> 16 &&& 0x3F ||| 0x80) = UInt8.ofNat (128 + value / 2 ^ 16) :=
      high_byte (i := 6) 2 (by omega)
    rw [hhigh, low_byte, hlow]
    exact hencode 2 (by decide) (by omega)

theorem carries_4byte_signed {value : Int} (h : value.natAbs ≤ 0x1FFFFF) :
    Carries rdpei_read_4byte_signed 3 (heard value) (rdpei_write_4byte_signed value) := by
  have hencode (c : Nat) (hc : c ≤ 2) (x : Int) (hx : x.natAbs < 32 * 256 ^ c) :
      Carries rdpei_read_4byte_signed 3 x (some (encode 64 c (ofSigned (32 * 256 ^ c) x))) := by
    have hlt := ofSigned_lt hx
    have hcarries := carries_encode (fun c value => toSigned (32 * 256 ^ c) value) 64 c 3
      rdpei_read_4byte_signed_eq (by omega)
      (show ofSigned (32 * 256 ^ c) x < 64 * 256 ^ c by omega) (by omega)
    rwa [toSigned_ofSigned hx] at hcarries
  have hmask (k : Nat) (hk : value.natAbs / 2 ^ k < 32) :
      value.natAbs >>> k &&& 0x1F = value.natAbs / 2 ^ k := by
    have hlow : value.natAbs >>> k &&& 0x1F = value.natAbs >>> k % 2 ^ 5 := and_low _ 5
    rw [hlow, Nat.shiftRight_eq_div_pow]
    exact Nat.mod_eq_of_lt hk
  have hlow : BYTE (value.natAbs &&& 0xFF) = UInt8.ofNat (value.natAbs / 2 ^ 0) := low_byte _ 0
  unfold rdpei_write_4byte_signed heard
  dsimp only
  by_cases h1 : value.natAbs ≤ 0x1F
  · have hcarries := hencode 0 (by decide) value.natAbs (by omega)
    rw [encode_ofSigned, if_neg (by omega), Int.natAbs_natCast, Nat.zero_mul,
      Nat.zero_add, Nat.zero_add,
      Nat.pow_zero, Nat.div_one] at hcarries
    have habs : (if -0x1F ≤ value ∧ value < 0 then -value else value) = value.natAbs := by
      split_ifs
      all_goals omega
    rw [if_pos h1, habs]
    exact hcarries
  · rw [if_neg h1, if_neg (show ¬ (-0x1F ≤ value ∧ value < 0) by omega)]
    by_cases h2 : value.natAbs ≤ 0x1FFF
    · have htag : value.natAbs / 2 ^ 8 ||| (if value < 0 then 0x20 else 0) ||| 0x40 =
          64 + ((if value < 0 then 0x20 else 0) + value.natAbs / 2 ^ 8) :=
        or_sign_tag (i := 5) (by omega) (value < 0) 1
      have hcarries := hencode 1 (by decide) value (by omega)
      rw [encode_ofSigned] at hcarries
      rw [if_pos h2, hmask 8 (by omega), htag, hlow]
      exact hcarries
    · have htag : value.natAbs / 2 ^ 16 ||| (if value < 0 then 0x20 else 0) ||| 0x80 =
          128 + ((if value < 0 then 0x20 else 0) + value.natAbs / 2 ^ 16) :=
        or_sign_tag (i := 5) (by omega) (value < 0) 2
      have hcarries := hencode 2 (by decide) value (by omega)
      rw [encode_ofSigned] at hcarries
      rw [if_neg h2, if_pos h, hmask 16 (by omega), htag, low_byte, hlow]
      exact hcarries

/-! ### Eight bytes -/

/-- The bits that the writer keeps: five of the first byte and of the bytes before the last
three. -/
def keptBits : Nat := 0x1F1F1F1F1FFFFFFF

def kept (value : Nat) : Nat := value &&& keptBits

theorem kept_div (value k : Nat) : kept value / 2 ^ k = value >>> k &&& keptBits >>> k := by
  rw [kept, ← Nat.shiftRight_eq_div_pow, Nat.shiftRight_and_distrib]

theorem kept_mod (value k : Nat) :
    kept value / 2 ^ k % 256 = value >>> k % 256 &&& keptBits >>> k % 256 := by
  rw [kept_div]
  exact Nat.and_mod_two_pow (n := 8)

/-- A byte that is written with a mask. -/
theorem kept_byte (value k : Nat) {m : Nat} (hm : keptBits >>> k % 256 = m) :
    BYTE (value >>> k &&& m) = UInt8.ofNat (kept value / 2 ^ k) := by
  have hmod : (value >>> k &&& m) % 256 = value >>> k % 256 &&& m % 256 :=
    Nat.and_mod_two_pow (n := 8)
  apply BYTE_eq
  rw [hmod, kept_mod, hm, ← hm, Nat.mod_mod]

theorem kept_high (value k a : Nat) (hm : keptBits >>> k % 32 = 0x1F) (h : value / 2 ^ k < 32) :
    BYTE (value >>> k &&& 0x1F ||| 2 ^ 5 * a) = UInt8.ofNat (2 ^ 5 * a + kept value / 2 ^ k) := by
  have hkept : kept value / 2 ^ k = value / 2 ^ k := by
    have hle : kept value / 2 ^ k ≤ value / 2 ^ k := Nat.div_le_div_right Nat.and_le_left
    have hmod : (value >>> k &&& keptBits >>> k) % 32 = value >>> k % 32 &&& keptBits >>> k % 32 :=
      Nat.and_mod_two_pow (n := 5)
    have hlow : value / 2 ^ k % 32 &&& 0x1F = value / 2 ^ k % 32 % 32 := and_low _ 5
    rw [← Nat.mod_eq_of_lt (show kept value / 2 ^ k < 32 by omega), kept_div, hmod, hm,
      Nat.shiftRight_eq_div_pow, hlow, Nat.mod_mod, Nat.mod_eq_of_lt h]
  rw [hkept]
  exact high_byte (i := 5) a h

theorem plain_kept (value n : Nat) : Plain (be n (kept value)) := by
  apply plain_be
  have hmod := kept_mod value 24
  have hmask : keptBits >>> 24 % 256 = 0x1F := by decide
  have hle : value >>> 24 % 256 &&& 0x1F ≤ 0x1F := Nat.and_le_right
  rw [hmask] at hmod
  omega

theorem read_8byte_encode {value c : Nat} (hc : c ≤ 7) (hvalue : kept value < 32 * 256 ^ c)
    (rest : Bytes) :
    rdpei_read_8byte_unsigned (encode 32 c (kept value) ++ rest) = some (kept value, rest) := by
  have hdecode := decode_encode 32 c (by omega) hvalue rest
  have hcount := (first_byte 32 c (by omega) hvalue).1
  unfold encode at hdecode ⊢
  rw [List.cons_append] at hdecode ⊢
  generalize UInt8.ofNat (c * 32 + kept value / 256 ^ c) = b at hdecode hcount ⊢
  have htag : (b.toNat &&& 0xE0) >>> 5 = b.toNat / 32 := byte_count b 3 5 rfl
  have hlow : b.toNat &&& 0x1F = b.toNat % 32 := and_low _ 5
  have hplain : Plain ((be c (kept value) ++ rest).take (b.toNat / 32)) := by
    rw [hcount, List.take_left' (be_length _ _)]
    exact plain_kept value c
  rw [rdpei_read_8byte_unsigned, readCounted_eq htag hplain, hlow]
  rw [decode] at hdecode
  split_ifs at hdecode ⊢
  obtain ⟨⟨-, hvalue⟩, hrest⟩ := by simpa only [Option.some.injEq, Prod.mk.injEq] using hdecode
  rw [hvalue, hrest]
  rfl

theorem carries_8byte_unsigned {value : Nat} (h : value ≤ 0x1FFFFFFFFFFFFF) :
    Carries rdpei_read_8byte_unsigned 8 (kept value) (rdpei_write_8byte_unsigned value) := by
  have hkept : kept value ≤ value := Nat.and_le_left
  have hencode (c : Nat) (hc : c ≤ 7) (hvalue : value < 32 * 256 ^ c) :
      Carries rdpei_read_8byte_unsigned 8 (kept value) (some (encode 32 c (kept value))) := by
    refine ⟨_, rfl, ?_, read_8byte_encode hc (Nat.lt_of_le_of_lt hkept hvalue)⟩
    rw [encode_length]
    omega
  have hb0 : BYTE (value &&& 0xFF) = UInt8.ofNat (kept value / 2 ^ 0) :=
    kept_byte value 0 (by decide)
  have hb1 : BYTE (value >>> 8 &&& 0xFF) = UInt8.ofNat (kept value / 2 ^ 8) :=
    kept_byte value 8 (by decide)
  have hb2 : BYTE (value >>> 16 &&& 0xFF) = UInt8.ofNat (kept value / 2 ^ 16) :=
    kept_byte value 16 (by decide)
  have hb3 : BYTE (value >>> 24 &&& 0x1F) = UInt8.ofNat (kept value / 2 ^ 24) :=
    kept_byte value 24 (by decide)
  have hb4 : BYTE (value >>> 32 &&& 0x1F) = UInt8.ofNat (kept value / 2 ^ 32) :=
    kept_byte value 32 (by decide)
  have hb5 : BYTE (value >>> 40 &&& 0x1F) = UInt8.ofNat (kept value / 2 ^ 40) :=
    kept_byte value 40 (by decide)
  have hb6 : BYTE (value >>> 48 &&& 0x1F) = UInt8.ofNat (kept value / 2 ^ 48) :=
    kept_byte value 48 (by decide)
  unfold rdpei_write_8byte_unsigned
  split_ifs with h0 h1 h2 h4 h5 h6
  · have hfirst : BYTE (value &&& 0x1F) = UInt8.ofNat (kept value / 2 ^ 0) := by
      have hhigh := kept_high value 0 0 (by decide) (by omega)
      rwa [Nat.mul_zero, Nat.or_zero, Nat.zero_add] at hhigh
    have hcarries := hencode 0 (by decide) (by omega)
    rw [encode, Nat.zero_mul, Nat.zero_add] at hcarries
    rw [hfirst]
    exact hcarries
  · have hfirst : BYTE (value >>> 8 &&& 0x1F ||| 1 <<< 5) = UInt8.ofNat (32 + kept value / 2 ^ 8) :=
      kept_high value 8 1 (by decide) (by omega)
    rw [hfirst, hb0]
    exact hencode 1 (by decide) (by omega)
  · have hfirst : BYTE (value >>> 16 &&& 0x1F ||| 2 <<< 5) =
        UInt8.ofNat (64 + kept value / 2 ^ 16) :=
      kept_high value 16 2 (by decide) (by omega)
    rw [hfirst, hb1, hb0]
    exact hencode 2 (by decide) (by omega)
  · have hfirst : BYTE (value >>> 32 &&& 0x1F ||| 4 <<< 5) =
        UInt8.ofNat (128 + kept value / 2 ^ 32) :=
      kept_high value 32 4 (by decide) (by omega)
    rw [hfirst, hb3, hb2, hb1, hb0]
    exact hencode 4 (by decide) (by omega)
  · have hfirst : BYTE (value >>> 40 &&& 0x1F ||| 5 <<< 5) =
        UInt8.ofNat (160 + kept value / 2 ^ 40) :=
      kept_high value 40 5 (by decide) (by omega)
    rw [hfirst, hb4, hb3, hb2, hb1, hb0]
    exact hencode 5 (by decide) (by omega)
  · have hfirst : BYTE (value >>> 48 &&& 0x1F ||| 6 <<< 5) =
        UInt8.ofNat (192 + kept value / 2 ^ 48) :=
      kept_high value 48 6 (by decide) (by omega)
    rw [hfirst, hb5, hb4, hb3, hb2, hb1, hb0]
    exact hencode 6 (by decide) (by omega)
  · have hfirst : BYTE (value >>> 56 &&& 0x1F ||| 7 <<< 5) =
        UInt8.ofNat (224 + kept value / 2 ^ 56) :=
      kept_high value 56 7 (by decide) (by omega)
    rw [hfirst, hb6, hb5, hb4, hb3, hb2, hb1, hb0]
    exact hencode 7 (by decide) (by omega)

/-- Below 32 bits, three of them are not kept. -/
theorem kept_of_lt {value : Nat} (h : value < 2 ^ 32) : kept value = value % 2 ^ 29 := by
  have hle : kept value ≤ value := Nat.and_le_left
  have hmod : kept value % 2 ^ 32 = value % 2 ^ 32 &&& keptBits % 2 ^ 32 := Nat.and_mod_two_pow
  have hbits : keptBits % 2 ^ 32 = 2 ^ 29 - 1 := by decide
  rw [Nat.mod_eq_of_lt (by omega), Nat.mod_eq_of_lt h, hbits, and_low] at hmod
  exact hmod

/-! ### What a writer refuses -/

theorem write_2byte_unsigned_isSome {value : Nat} :
    (rdpei_write_2byte_unsigned value).isSome ↔ value ≤ 0x7FFF := by
  constructor
  · intro h
    by_contra hgt
    rw [rdpei_write_2byte_unsigned, if_pos (by omega)] at h
    exact absurd h (by decide)
  · exact fun h => (carries_2byte_unsigned h).isSome

theorem write_4byte_unsigned_eq_none {value : Nat} (h : 0x3FFFFF < value) :
    rdpei_write_4byte_unsigned value = none := by
  unfold rdpei_write_4byte_unsigned
  rw [if_neg (by omega), if_neg (by omega), if_neg (by omega), if_neg (by omega)]

theorem write_4byte_unsigned_isSome {value : Nat} :
    (rdpei_write_4byte_unsigned value).isSome ↔ value ≤ 0x3FFFFF := by
  constructor
  · intro h
    by_contra hgt
    rw [write_4byte_unsigned_eq_none (by omega)] at h
    exact absurd h (by decide)
  · exact fun h => (carries_4byte_unsigned h).isSome

theorem write_8byte_unsigned_isSome {value : Nat} :
    (rdpei_write_8byte_unsigned value).isSome ↔ value ≤ 0x1FFFFFFFFFFFFF := by
  constructor
  · intro h
    by_contra hgt
    have hnone : rdpei_write_8byte_unsigned value = none := by
      unfold rdpei_write_8byte_unsigned
      rw [if_neg (by omega), if_neg (by omega), if_neg (by omega), if_neg (by omega),
        if_neg (by omega),
        if_neg (by omega), if_neg (by omega), if_neg (by omega)]
    rw [hnone] at h
    exact absurd h (by decide)
  · exact fun h => (carries_8byte_unsigned h).isSome

end TiraRdp.Rdpei
