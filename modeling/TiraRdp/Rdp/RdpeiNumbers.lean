import TiraRdp.Rdp.RdpeiCommon

/-!
# `rdpei_common`: numbers one after the other

The three formats whose first byte counts the bytes after it. A `Number` is a value and its format;
it is written by the writer of its format, and a reader has to know the formats of a stream.

The last branch of the two writers of four bytes stands under the condition of the branch before it,
so a value that needs four bytes is refused. The writer of signed numbers writes `value` in place of
the byte that has the sign when there is only one. The writer of eight bytes masks with `0x1F` the
bytes above the lowest three, as it has to mask the first one only.

Results: `numbers_round_trip_iff`, which values are read back as they were written.
-/

namespace TiraRdp.Rdpei

open Lib Counted

inductive Format
  | four_byte_unsigned
  | four_byte_signed
  | eight_byte_unsigned
  deriving DecidableEq, Repr

inductive Number
  | four_byte_unsigned (value : Nat)
  | four_byte_signed (value : Int)
  | eight_byte_unsigned (value : Nat)
  deriving DecidableEq, Repr

namespace Number

def format : Number → Format
  | four_byte_unsigned _ => .four_byte_unsigned
  | four_byte_signed _ => .four_byte_signed
  | eight_byte_unsigned _ => .eight_byte_unsigned

/-- The values that the format has room for. -/
def InRange : Number → Prop
  | four_byte_unsigned value => value ≤ 0x3FFFFFFF
  | four_byte_signed value => -0x1FFFFFFF ≤ value ∧ value ≤ 0x1FFFFFFF
  | eight_byte_unsigned value => value ≤ 0x1FFFFFFFFFFFFFFF

def write : Number → Option Bytes
  | four_byte_unsigned value => rdpei_write_4byte_unsigned value
  | four_byte_signed value => rdpei_write_4byte_signed value
  | eight_byte_unsigned value => rdpei_write_8byte_unsigned value

/-- What the reader makes of what has been written. -/
def shown : Number → Number
  | four_byte_unsigned value => four_byte_unsigned value
  | four_byte_signed value => four_byte_signed (heard value)
  | eight_byte_unsigned value => eight_byte_unsigned (kept value)

/-- At most three bytes, and a sign that is not in a byte of its own; at most seven bytes after the
first, and none of the bits that are masked. -/
def Kept : Number → Prop
  | four_byte_unsigned value => value ≤ 0x3FFFFF
  | four_byte_signed value => -0x1FFFFF ≤ value ∧ value ≤ 0x1FFFFF ∧ ¬ (-0x1F ≤ value ∧ value < 0)
  | eight_byte_unsigned value => value ≤ 0x1FFFFFFFFFFFFF ∧ value &&& 0xE0E0E0000000 = 0

end Number

def Format.read : Format → Bytes → Option (Number × Bytes)
  | four_byte_unsigned, s =>
    (rdpei_read_4byte_unsigned s).map fun (value, s) => (.four_byte_unsigned value, s)
  | four_byte_signed, s =>
    (rdpei_read_4byte_signed s).map fun (value, s) => (.four_byte_signed value, s)
  | eight_byte_unsigned, s =>
    (rdpei_read_8byte_unsigned s).map fun (value, s) => (.eight_byte_unsigned value, s)

instance : DecidablePred Number.InRange
  | .four_byte_unsigned value => inferInstanceAs (Decidable (value ≤ 0x3FFFFFFF))
  | .four_byte_signed value =>
    inferInstanceAs (Decidable (-0x1FFFFFFF ≤ value ∧ value ≤ 0x1FFFFFFF))
  | .eight_byte_unsigned value => inferInstanceAs (Decidable (value ≤ 0x1FFFFFFFFFFFFFFF))

instance : DecidablePred Number.Kept
  | .four_byte_unsigned value => inferInstanceAs (Decidable (value ≤ 0x3FFFFF))
  | .four_byte_signed value => inferInstanceAs (Decidable
      (-0x1FFFFF ≤ value ∧ value ≤ 0x1FFFFF ∧ ¬ (-0x1F ≤ value ∧ value < 0)))
  | .eight_byte_unsigned value => inferInstanceAs (Decidable
      (value ≤ 0x1FFFFFFFFFFFFF ∧ value &&& 0xE0E0E0000000 = 0))

namespace Number

def ReadsBack (number : Number) : Prop := Counted.ReadsBack write Format.read format number

def RoundTrips (numbers : List Number) : Prop := Counted.RoundTrips write Format.read format numbers

end Number

/-! ## What is read -/

theorem write_4byte_signed_isSome {value : Int} :
    (rdpei_write_4byte_signed value).isSome ↔ value.natAbs ≤ 0x1FFFFF := by
  constructor
  · intro h
    by_contra hgt
    have hnone : rdpei_write_4byte_signed value = none := by
      unfold rdpei_write_4byte_signed
      dsimp only
      rw [if_neg (by omega), if_neg (by omega), if_neg (by omega), if_neg (by omega)]
    rw [hnone] at h
    exact absurd h (by decide)
  · exact fun h => (carries_4byte_signed h).isSome

/-- The reader of a format under another name for what it reads. -/
theorem carries_map {α β : Type} {read : Bytes → Option (α × Bytes)} {n : Nat} {x : α}
    {written : Option Bytes} (h : Carries read n x written) (f : α → β) :
    Carries (fun s => (read s).map fun (x, s) => (f x, s)) n (f x) written := by
  obtain ⟨bs, hwritten, hlength, hread⟩ := h
  refine ⟨bs, hwritten, hlength, fun rest => ?_⟩
  dsimp only
  rw [hread, Option.map_some]

/-- A number that is not refused is read as it is shown. -/
theorem Number.carries (number : Number) (h : number.write.isSome) :
    ∃ n, Carries number.format.read n number.shown number.write := by
  cases number with
  | four_byte_unsigned value =>
    exact ⟨3, carries_map (carries_4byte_unsigned (write_4byte_unsigned_isSome.mp h)) _⟩
  | four_byte_signed value =>
    exact ⟨3, carries_map (carries_4byte_signed (write_4byte_signed_isSome.mp h)) _⟩
  | eight_byte_unsigned value =>
    exact ⟨8, carries_map (carries_8byte_unsigned (write_8byte_unsigned_isSome.mp h)) _⟩

/-- The bits that are kept and those that are masked make up the value. -/
theorem kept_eq_self {value : Nat} (h : value ≤ 0x1FFFFFFFFFFFFF) :
    kept value = value ↔ value &&& 0xE0E0E0000000 = 0 := by
  have hall : value &&& (keptBits ||| 0xE0E0E0000000) = value := by
    have hlow : value &&& 2 ^ 53 - 1 = value := by
      rw [and_low, Nat.mod_eq_of_lt (by omega)]
    have hbits : 2 ^ 53 - 1 &&& (keptBits ||| 0xE0E0E0000000) = 2 ^ 53 - 1 := by decide
    rw [← hlow, Nat.and_assoc, hbits]
  have hnone : kept value &&& 0xE0E0E0000000 = 0 := by
    have hbits : keptBits &&& 0xE0E0E0000000 = 0 := by decide
    rw [kept, Nat.and_assoc, hbits, Nat.and_zero]
  constructor
  · intro hkept
    rwa [hkept] at hnone
  · intro hmasked
    rwa [Nat.and_or_distrib_left, hmasked, Nat.or_zero] at hall

/-- Exactly these are written and shown as they are. -/
theorem Number.kept_iff (number : Number) :
    number.write.isSome ∧ number.shown = number ↔ number.Kept := by
  cases number with
  | four_byte_unsigned value =>
    simp only [write, shown, Kept, write_4byte_unsigned_isSome, and_true]
  | four_byte_signed value =>
    simp only [write, shown, Kept, write_4byte_signed_isSome, four_byte_signed.injEq, heard_eq_iff]
    omega
  | eight_byte_unsigned value =>
    simp only [write, shown, Kept, write_8byte_unsigned_isSome, eight_byte_unsigned.injEq]
    exact and_congr_right kept_eq_self

theorem Number.readsBack_iff (number : Number) : number.ReadsBack ↔ number.Kept := by
  rw [ReadsBack, Counted.readsBack_iff carries, number.kept_iff]

/-- **Which numbers of the three formats are read back**, alone and one after the other. -/
theorem numbers_round_trip_iff (numbers : List Number) :
    (∀ number ∈ numbers, number.ReadsBack) ∧ Number.RoundTrips numbers ↔
      ∀ number ∈ numbers, number.Kept := by
  have hsequence : Number.RoundTrips numbers ↔ ∀ number ∈ numbers, number.ReadsBack :=
    Counted.roundTrips_iff Number.carries numbers
  rw [hsequence, and_self]
  exact forall₂_congr fun number _ => number.readsBack_iff

/-- One number of each format that is not: the first is refused, the second has lost its sign, and
the third is read as zero. -/
theorem numbers_in_range_not_read_back :
    ((Number.four_byte_unsigned 0x400000).InRange ∧
      ¬ (Number.four_byte_unsigned 0x400000).ReadsBack) ∧
    ((Number.four_byte_signed (-1)).InRange ∧ ¬ (Number.four_byte_signed (-1)).ReadsBack) ∧
    (Number.eight_byte_unsigned 0x20000000).InRange ∧
      ¬ (Number.eight_byte_unsigned 0x20000000).ReadsBack := by
  simp only [Number.readsBack_iff]
  decide

end TiraRdp.Rdpei
