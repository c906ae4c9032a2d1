import TiraRdp.Lib.Bits
import TiraRdp.Lib.Memory

/-!
# `wBitStream`: bits in a buffer

The macros of `Rdp/src/winpr/include/winpr/bitstream.h` that `mppc.c` uses, and `BitStream_Attach`
(`libwinpr/utils/collections/BitStream.c:330-339`). A stream works on words: of the bits from
`position` on, `accumulator` has 32 and `prefetch` what is left of the 32 behind the word at
`pointer`; of the bits that are being written, `accumulator` has those of the word at `pointer`.
No byte outside of `capacity` is touched. `mask` is local to the macros.

* `Reading`: the stream stands somewhere in the bits of its buffer.
* `Written`: these bits have been written.

Results: a shift goes on (`Reading.shift`), what is written is put behind what has been
(`Written.write_bits`), and what has been flushed are the bits, filled up with zeros
(`Written.flush`).
-/

namespace TiraRdp

open Lib Mem

structure wBitStream where
  buffer : Mem UInt8
  capacity : Nat
  pointer : Nat
  position : Nat
  offset : Nat
  prefetch : Nat
  accumulator : Nat

namespace wBitStream

/-- `BitStream_New`: all zeros. -/
def new : wBitStream := ⟨fun _ => 0, 0, 0, 0, 0, 0, 0⟩

def length (bs : wBitStream) : Nat := bs.capacity * 8

def Attach (bs : wBitStream) (buffer : Mem UInt8) (capacity : Nat) : wBitStream :=
  { bs with buffer, capacity, pointer := 0, position := 0, offset := 0, accumulator := 0 }

/-- `*(pointer + k) << shift`, as far as the buffer goes. -/
def byteAt (bs : wBitStream) (k shift : Nat) : Nat :=
  if bs.pointer + k < bs.capacity then (bs.buffer (bs.pointer + k)).toNat <<< shift else 0

/-- The word `k` bytes behind the pointer. -/
def wordAt (bs : wBitStream) (k : Nat) : Nat :=
  bs.byteAt k 24 ||| bs.byteAt (k + 1) 16 ||| bs.byteAt (k + 2) 8 ||| bs.byteAt (k + 3) 0

def Prefetch (bs : wBitStream) : wBitStream := { bs with prefetch := bs.wordAt 4 }

def Fetch (bs : wBitStream) : wBitStream :=
  Prefetch { bs with accumulator := bs.wordAt 0 }

/-- `*(pointer + k) = b`, as far as the buffer goes. -/
def putAt (bs : wBitStream) (k b : Nat) : wBitStream :=
  if bs.pointer + k < bs.capacity then
    { bs with buffer := bs.buffer.write (bs.pointer + k) [UInt8.ofNat b] }
  else bs

def Flush (bs : wBitStream) : wBitStream :=
  (((bs.putAt 0 (bs.accumulator >>> 24)).putAt 1 (bs.accumulator >>> 16)).putAt 2
    (bs.accumulator >>> 8)).putAt 3 (bs.accumulator >>> 0)

/-- `BitStream_Shift`, for fewer than 32 bits. -/
def Shift (bs : wBitStream) (nbits : Nat) : wBitStream :=
  if nbits = 0 then bs
  else
    let mask := 1 <<< nbits - 1
    let bs := { bs with
      position := bs.position + nbits
      offset := bs.offset + nbits
      accumulator := u32 (bs.accumulator <<< nbits) ||| ((bs.prefetch >>> (32 - nbits)) &&& mask)
      prefetch := u32 (bs.prefetch <<< nbits) }
    if bs.offset < 32 then bs
    else
      let bs := Prefetch { bs with offset := bs.offset - 32, pointer := bs.pointer + 4 }
      if bs.offset = 0 then bs
      else
        let mask := 1 <<< bs.offset - 1
        { bs with
          accumulator := bs.accumulator ||| ((bs.prefetch >>> (32 - bs.offset)) &&& mask)
          prefetch := u32 (bs.prefetch <<< bs.offset) }

def Write_Bits (bs : wBitStream) (bits nbits : Nat) : wBitStream :=
  let bs := { bs with position := bs.position + nbits, offset := bs.offset + nbits }
  if bs.offset < 32 then
    { bs with accumulator := bs.accumulator ||| u32 (bits <<< (32 - bs.offset)) }
  else
    let bs := { bs with offset := bs.offset - 32 }
    let mask := 1 <<< (nbits - bs.offset) - 1
    let bs := Flush { bs with accumulator := bs.accumulator ||| ((bits >>> bs.offset) &&& mask) }
    let bs := { bs with accumulator := 0, pointer := bs.pointer + 4 }
    if bs.offset = 0 then bs
    else
      let mask := 1 <<< bs.offset - 1
      { bs with accumulator := bs.accumulator ||| u32 ((bits &&& mask) <<< (32 - bs.offset)) }

/-- The first `n` bytes of the buffer. -/
def bytes (bs : wBitStream) (n : Nat) : Bytes := read bs.buffer 0 n

/-! ## Words -/

/-- Two numbers side by side, as a sum. -/
theorem or_eq_add {a b n : Nat} (hb : b < 2 ^ n) : a * 2 ^ n ||| b = a * 2 ^ n + b := by
  rw [Nat.mul_comm]
  exact (Nat.two_pow_add_eq_or_of_lt hb a).symm

/-- The lower bits of a number. -/
theorem and_ones (a n : Nat) : a &&& (1 <<< n - 1) = a % 2 ^ n := by
  rw [Nat.one_shiftLeft]
  exact Nat.and_two_pow_sub_one_eq_mod a n

/-- The byte that a look at eight bits finds. -/
theorem peek_byte (m : Mem UInt8) (n i : Nat) :
    peek 8 ((bitsOf (read m 0 n)).drop (8 * i)) = if i < n then (m i).toNat else 0 := by
  by_cases hin : i < n
  · obtain ⟨rest, rfl⟩ := Nat.exists_eq_add_of_lt hin
    have hone : read m (0 + i) (rest + 1) = m i :: read m (i + 1) rest := by
      rw [Nat.zero_add, Nat.add_comm rest 1, read_add]
      rfl
    have hlen : 8 * i = (bitsOf (read m 0 i)).length := by
      rw [bitsOf_length, read_length]
    rw [if_pos hin, Nat.add_assoc, read_add, bitsOf_append, hlen, List.drop_left, hone, bitsOf_cons,
      peek_toBits (UInt8.toNat_lt _)]
  · rw [if_neg hin, List.drop_eq_nil_of_le (by rw [bitsOf_length, read_length]; omega), peek_nil]

theorem byteAt_eq (bs : wBitStream) (k shift : Nat) :
    bs.byteAt k shift = peek 8 ((bitsOf (bs.bytes bs.capacity)).drop (8 * (bs.pointer + k))) *
      2 ^ shift := by
  rw [bytes, peek_byte, byteAt]
  split_ifs
  · rw [Nat.shiftLeft_eq]
  · rw [Nat.zero_mul]

/-- A word is the next 32 bits, zeros behind the end. -/
theorem wordAt_eq (bs : wBitStream) (k : Nat) :
    bs.wordAt k = peek 32 ((bitsOf (bs.bytes bs.capacity)).drop (8 * (bs.pointer + k))) := by
  have hword (bits : List Bool) : peek 32 bits = peek 8 bits * 2 ^ 24 +
      (peek 8 (bits.drop 8) * 2 ^ 16 + (peek 8 (bits.drop 16) * 2 ^ 8 + peek 8 (bits.drop 24))) := by
    rw [peek_add 8 24, peek_add 8 16, peek_add 8 8, List.drop_drop, List.drop_drop]
  have hlt (n : Nat) : peek 8 ((bitsOf (bs.bytes bs.capacity)).drop n) < 2 ^ 8 := peek_lt 8 _
  have h0 := hlt (8 * (bs.pointer + k))
  have h1 := hlt (8 * (bs.pointer + (k + 1)))
  have h2 := hlt (8 * (bs.pointer + (k + 2)))
  have h3 := hlt (8 * (bs.pointer + (k + 3)))
  have hplace (i : Nat) : 8 * (bs.pointer + k) + 8 * i = 8 * (bs.pointer + (k + i)) := by omega
  rw [hword, List.drop_drop, List.drop_drop, List.drop_drop, hplace 1, hplace 2, hplace 3, wordAt,
    byteAt_eq, byteAt_eq, byteAt_eq, byteAt_eq]
  generalize peek 8 ((bitsOf (bs.bytes bs.capacity)).drop (8 * (bs.pointer + k))) = a at h0 ⊢
  generalize peek 8 ((bitsOf (bs.bytes bs.capacity)).drop (8 * (bs.pointer + (k + 1)))) = b at h1 ⊢
  generalize peek 8 ((bitsOf (bs.bytes bs.capacity)).drop (8 * (bs.pointer + (k + 2)))) = c at h2 ⊢
  generalize peek 8 ((bitsOf (bs.bytes bs.capacity)).drop (8 * (bs.pointer + (k + 3)))) = d at h3 ⊢
  rw [Nat.lor_assoc, Nat.lor_assoc, Nat.pow_zero, Nat.mul_one, or_eq_add h3,
    or_eq_add (n := 16) (by omega), or_eq_add (n := 24) (by omega)]

/-! ## Reading -/

/-- The stream stands at bit `p` of its bits. -/
structure Reading (bs : wBitStream) (bits : List Bool) (p : Nat) : Prop where
  bits_eq : bitsOf (bs.bytes bs.capacity) = bits
  position_eq : bs.position = p
  place : 8 * bs.pointer + bs.offset = p
  offset_lt : bs.offset < 32
  accumulator_eq : bs.accumulator = peek 32 (bits.drop p)
  prefetch_eq : bs.prefetch = peek (32 - bs.offset) (bits.drop (p + 32)) * 2 ^ bs.offset

theorem reading_fetch (bs : wBitStream) (buffer : Mem UInt8) (capacity : Nat) :
    Reading (bs.Attach buffer capacity).Fetch (bitsOf (read buffer 0 capacity)) 0 where
  bits_eq := rfl
  position_eq := rfl
  place := rfl
  offset_lt := Nat.zero_lt_succ 31
  accumulator_eq := wordAt_eq (bs.Attach buffer capacity) 0
  prefetch_eq := by
    refine (wordAt_eq (bs.Attach buffer capacity) 4).trans ?_
    change peek 32 _ = peek (32 - 0) _ * 2 ^ 0
    rw [Nat.pow_zero, Nat.mul_one]
    rfl

theorem u32_shiftLeft {a n : Nat} (hn : n ≤ 32) : u32 (a <<< n) = a % 2 ^ (32 - n) * 2 ^ n := by
  have hpow : (2 : Nat) ^ 32 = 2 ^ (32 - n) * 2 ^ n := by
    rw [← Nat.pow_add, Nat.sub_add_cancel hn]
  rw [Nat.shiftLeft_eq, u32, hpow, Nat.mul_mod_mul_right]

/-- What is prefetched, by the place in the word: `n` bits and those behind them. -/
theorem prefetch_take {o n : Nat} (hon : o + n ≤ 32) (bits : List Bool) :
    (peek (32 - o) bits * 2 ^ o) >>> (32 - n) = peek n bits ∧
      u32 ((peek (32 - o) bits * 2 ^ o) <<< n) =
        peek (32 - (o + n)) (bits.drop n) * 2 ^ (o + n) := by
  obtain ⟨r, hr⟩ := Nat.exists_eq_add_of_le hon
  have h1 : 32 - o = n + r := by omega
  have h2 : 32 - n = r + o := by omega
  have h3 : 32 - (o + n) = r := by omega
  rw [u32_shiftLeft (by omega), Nat.shiftRight_eq_div_pow, h1, h2, h3]
  constructor
  · rw [Nat.pow_add, Nat.mul_div_mul_right _ _ (Nat.two_pow_pos o), peek_div]
  · rw [Nat.pow_add, Nat.mul_mod_mul_right, peek_mod, Nat.mul_assoc, ← Nat.pow_add]

/-- **A shift** goes on by its bits. -/
theorem Reading.shift {bs : wBitStream} {bits : List Bool} {p n : Nat} (h : Reading bs bits p)
    (hn : n < 32) : Reading (bs.Shift n) bits (p + n) := by
  obtain ⟨hbits, hposition, hplace, hoffset, haccumulator, hprefetch⟩ := h
  unfold Shift
  by_cases hzero : n = 0
  · subst hzero
    rw [if_pos rfl]
    exact ⟨hbits, hposition, hplace, hoffset, haccumulator, hprefetch⟩
  rw [if_neg hzero]
  dsimp only
  -- the bits that stay in the accumulator, and those that come in
  have hkept : u32 (bs.accumulator <<< n) = peek (32 - n) (bits.drop (p + n)) * 2 ^ n := by
    have hmod := peek_mod n (32 - n) (bits.drop p)
    rw [Nat.add_sub_of_le (Nat.le_of_lt hn), List.drop_drop] at hmod
    rw [u32_shiftLeft (Nat.le_of_lt hn), haccumulator, hmod]
  have hwhole : peek 32 (bits.drop (p + n)) =
      peek (32 - n) (bits.drop (p + n)) * 2 ^ n + peek n (bits.drop (p + 32)) := by
    have hsplit := peek_add (32 - n) n (bits.drop (p + n))
    have hplace32 : p + n + (32 - n) = p + 32 := by omega
    rwa [Nat.sub_add_cancel (Nat.le_of_lt hn), List.drop_drop, hplace32] at hsplit
  by_cases hsame : bs.offset + n < 32
  · obtain ⟨htaken, hrest⟩ := prefetch_take (Nat.le_of_lt hsame) (bits.drop (p + 32))
    rw [if_pos hsame]
    refine ⟨hbits, by dsimp only; omega, by dsimp only; omega, hsame, ?_, ?_⟩
    · dsimp only
      rw [hkept, hprefetch, htaken, and_ones, Nat.mod_eq_of_lt (peek_lt n _),
        or_eq_add (peek_lt n _), hwhole]
    · dsimp only
      rw [hprefetch, hrest, List.drop_drop, Nat.add_right_comm p n 32]
  · -- the word is used up, and the rest comes from the one behind it
    obtain ⟨k, hk⟩ : ∃ k, bs.offset + n = 32 + k := ⟨bs.offset + n - 32, by omega⟩
    have hback : bs.offset + n - 32 = k := by omega
    have hk32 : k < 32 := by omega
    have hn' : n = (32 - bs.offset) + k := by omega
    have hfirst : (bs.prefetch >>> (32 - n)) &&& (1 <<< n - 1) =
        peek (32 - bs.offset) (bits.drop (p + 32)) * 2 ^ k := by
      have hpow : (2 : Nat) ^ bs.offset = 2 ^ k * 2 ^ (32 - n) := by
        rw [← Nat.pow_add]
        congr 1
        omega
      have hlt : peek (32 - bs.offset) (bits.drop (p + 32)) * 2 ^ k < 2 ^ n := by
        have hpeek := peek_lt (32 - bs.offset) (bits.drop (p + 32))
        conv_rhs => rw [hn', Nat.pow_add]
        exact Nat.mul_lt_mul_of_pos_right hpeek (Nat.two_pow_pos k)
      rw [hprefetch, Nat.shiftRight_eq_div_pow, hpow, ← Nat.mul_assoc,
        Nat.mul_div_cancel _ (Nat.two_pow_pos _), and_ones, Nat.mod_eq_of_lt hlt]
    have hcoming : peek n (bits.drop (p + 32)) =
        peek (32 - bs.offset) (bits.drop (p + 32)) * 2 ^ k +
          peek k (bits.drop (8 * bs.pointer + 64)) := by
      have hsplit := peek_add (32 - bs.offset) k (bits.drop (p + 32))
      have hplace64 : p + 32 + (32 - bs.offset) = 8 * bs.pointer + 64 := by omega
      rwa [← hn', List.drop_drop, hplace64] at hsplit
    have hword (position offset prefetch accumulator : Nat) :
        (wBitStream.mk bs.buffer bs.capacity (bs.pointer + 4) position offset prefetch
          accumulator).wordAt 4 = peek 32 (bits.drop (8 * bs.pointer + 64)) := by
      have h64 : 8 * (bs.pointer + 4 + 4) = 8 * bs.pointer + 64 := by omega
      rw [wordAt_eq, ← hbits, ← h64]
      rfl
    rw [if_neg hsame]
    unfold Prefetch
    dsimp only
    rw [hword, hback]
    by_cases hend : k = 0
    · subst hend
      rw [if_pos rfl]
      refine ⟨hbits, by dsimp only; omega, by dsimp only; omega, Nat.zero_lt_succ 31, ?_, ?_⟩
      · dsimp only
        rw [hkept, hfirst, hwhole, hcoming, or_eq_add]
        · simp [peek, ofBits]
        · have hpeek := peek_lt n (bits.drop (p + 32))
          omega
      · dsimp only
        have hplace64 : p + n + 32 = 8 * bs.pointer + 64 := by omega
        rw [Nat.pow_zero, Nat.mul_one, hplace64]
    · rw [if_neg hend]
      obtain ⟨htaken, hrest⟩ := prefetch_take (o := 0) (n := k) (by omega)
        (bits.drop (8 * bs.pointer + 64))
      rw [Nat.pow_zero, Nat.mul_one, Nat.sub_zero, Nat.zero_add, List.drop_drop] at hrest
      rw [Nat.pow_zero, Nat.mul_one, Nat.sub_zero] at htaken
      refine ⟨hbits, by dsimp only; omega, by dsimp only; omega, hk32, ?_, ?_⟩
      · dsimp only
        rw [hkept, hfirst, htaken, and_ones, Nat.mod_eq_of_lt (peek_lt k _), hwhole, Nat.lor_assoc,
          or_eq_add (peek_lt k _), ← hcoming, or_eq_add (peek_lt n _)]
      · dsimp only
        have hplace64 : 8 * bs.pointer + 64 + k = p + n + 32 := by omega
        rw [hrest, hplace64]

/-! ## Writing -/

/-- These bits have been written: those of the words before the pointer and, at the top of the
accumulator, the others. -/
structure Written (bs : wBitStream) (bits : List Bool) : Prop where
  length_le : bits.length ≤ 8 * bs.capacity
  position_eq : bs.position = bits.length
  offset_lt : bs.offset < 32
  bits_eq : ∃ rest, bits = bitsOf (bs.bytes bs.pointer) ++ rest ∧ rest.length = bs.offset ∧
    bs.accumulator = ofBits rest * 2 ^ (32 - bs.offset)

theorem written_attach (bs : wBitStream) (buffer : Mem UInt8) (capacity : Nat) :
    Written (bs.Attach buffer capacity) [] where
  length_le := Nat.zero_le _
  position_eq := rfl
  offset_lt := Nat.zero_lt_succ 31
  bits_eq := ⟨[], rfl, rfl, (Nat.zero_mul _).symm⟩

theorem Written.length_eq {bs : wBitStream} {bits : List Bool} (h : Written bs bits) :
    bits.length = 8 * bs.pointer + bs.offset := by
  obtain ⟨rest, hbits, hrest, -⟩ := h.bits_eq
  rw [hbits, List.length_append, bitsOf_length, bytes, read_length, hrest]

section Flush

variable (bs : wBitStream) {k j b : Nat}

@[simp] theorem putAt_pointer : (bs.putAt k b).pointer = bs.pointer := by
  unfold putAt
  split_ifs <;> rfl

@[simp] theorem putAt_capacity : (bs.putAt k b).capacity = bs.capacity := by
  unfold putAt
  split_ifs <;> rfl

@[simp] theorem putAt_position : (bs.putAt k b).position = bs.position := by
  unfold putAt
  split_ifs <;> rfl

@[simp] theorem putAt_offset : (bs.putAt k b).offset = bs.offset := by
  unfold putAt
  split_ifs <;> rfl

@[simp] theorem Flush_pointer : bs.Flush.pointer = bs.pointer := by simp [Flush]

@[simp] theorem Flush_capacity : bs.Flush.capacity = bs.capacity := by simp [Flush]

@[simp] theorem Flush_position : bs.Flush.position = bs.position := by simp [Flush]

@[simp] theorem Flush_offset : bs.Flush.offset = bs.offset := by simp [Flush]

/-- The bytes before it stay. -/
theorem putAt_bytes (hj : j ≤ k) : (bs.putAt k b).bytes (bs.pointer + j) = bs.bytes (bs.pointer + j) := by
  unfold putAt
  split_ifs
  · exact read_write_of_disjoint _ (.inl (by omega))
  · rfl

theorem putAt_bytes_succ (hk : bs.pointer + k < bs.capacity) :
    bitsOf ((bs.putAt k b).bytes (bs.pointer + (k + 1))) =
      bitsOf (bs.bytes (bs.pointer + k)) ++ toBits 8 b := by
  have hread := read_write_append bs.buffer 0 (bs.pointer + k) [UInt8.ofNat b]
  rw [Nat.zero_add] at hread
  unfold putAt
  rw [if_pos hk]
  refine (congrArg bitsOf hread).trans ?_
  rw [bitsOf_append, bitsOf_cons, bitsOf_nil, List.append_nil, UInt8.toNat_ofNat', toBits_mod]
  rfl

/-- A flush puts the accumulator down, byte by byte. -/
theorem Flush_bytes (hj : j ≤ 4) (hcapacity : bs.pointer + j ≤ bs.capacity) :
    bitsOf (bs.Flush.bytes (bs.pointer + j)) =
      bitsOf (bs.bytes bs.pointer) ++ (toBits 32 bs.accumulator).take (8 * j) := by
  have hword : toBits 32 bs.accumulator = toBits 8 (bs.accumulator >>> 24) ++
      (toBits 8 (bs.accumulator >>> 16) ++ (toBits 8 (bs.accumulator >>> 8) ++
        toBits 8 (bs.accumulator >>> 0))) := by
    rw [toBits_add 8 24, toBits_add 8 16, toBits_add 8 8, Nat.shiftRight_eq_div_pow,
      Nat.shiftRight_eq_div_pow, Nat.shiftRight_eq_div_pow, Nat.shiftRight_zero]
  rw [hword]
  unfold Flush
  generalize bs.accumulator >>> 24 = b₀
  generalize bs.accumulator >>> 16 = b₁
  generalize bs.accumulator >>> 8 = b₂
  generalize bs.accumulator >>> 0 = b₃
  have hold (bs : wBitStream) (k b j : Nat) {p : Nat} (hp : p = bs.pointer) (hj : j ≤ k) :
      (bs.putAt k b).bytes (p + j) = bs.bytes (p + j) := hp ▸ putAt_bytes bs hj
  have hnew (bs : wBitStream) (k b : Nat) {p : Nat} (hp : p = bs.pointer)
      (hk : p + (k + 1) ≤ bs.capacity) : bitsOf ((bs.putAt k b).bytes (p + (k + 1))) =
        bitsOf (bs.bytes (p + k)) ++ toBits 8 b := hp ▸ putAt_bytes_succ bs (by omega)
  obtain rfl | rfl | rfl | rfl | rfl : j = 0 ∨ j = 1 ∨ j = 2 ∨ j = 3 ∨ j = 4 := by omega
  · rw [hold _ 3 _ 0 (by simp) (by decide), hold _ 2 _ 0 (by simp) (by decide),
      hold _ 1 _ 0 (by simp) (by decide), hold _ 0 _ 0 rfl (by decide)]
    simp
  · rw [hold _ 3 _ 1 (by simp) (by decide), hold _ 2 _ 1 (by simp) (by decide),
      hold _ 1 _ 1 (by simp) (by decide), hnew _ 0 _ rfl (by simpa using hcapacity)]
    simp [toBits_length]
  · rw [hold _ 3 _ 2 (by simp) (by decide), hold _ 2 _ 2 (by simp) (by decide),
      hnew _ 1 _ (by simp) (by simpa using hcapacity), hnew _ 0 _ rfl (by simp; omega)]
    simp [List.take_append, List.take_of_length_le]
  · rw [hold _ 3 _ 3 (by simp) (by decide), hnew _ 2 _ (by simp) (by simpa using hcapacity),
      hnew _ 1 _ (by simp) (by simp; omega), hnew _ 0 _ rfl (by simp; omega)]
    simp [List.take_append, List.take_of_length_le]
  · rw [hnew _ 3 _ (by simp) (by simpa using hcapacity), hnew _ 2 _ (by simp) (by simp; omega),
      hnew _ 1 _ (by simp) (by simp; omega), hnew _ 0 _ rfl (by simp; omega)]
    simp [List.take_of_length_le]

end Flush

/-- **What is written** stands behind what has been. -/
theorem Written.write_bits {bs : wBitStream} {bits : List Bool} {v n : Nat} (h : Written bs bits)
    (hn : n ≤ 32) (hv : v < 2 ^ n) (hroom : bits.length + n ≤ 8 * bs.capacity) :
    Written (bs.Write_Bits v n) (bits ++ toBits n v) ∧
      (bs.Write_Bits v n).capacity = bs.capacity := by
  have hlength := h.length_eq
  have hlong : (bits ++ toBits n v).length ≤ 8 * bs.capacity := by
    rwa [List.length_append, toBits_length]
  obtain ⟨-, hposition, hoffset, rest, hbits, hrest, haccumulator⟩ := h
  unfold Write_Bits
  dsimp only
  by_cases hsame : bs.offset + n < 32
  · rw [if_pos hsame]
    refine ⟨⟨hlong, ?_, hsame, rest ++ toBits n v, ?_, ?_, ?_⟩, rfl⟩
    · rw [List.length_append, toBits_length, ← hposition]
    · rw [hbits, List.append_assoc]
      rfl
    · rw [List.length_append, toBits_length, hrest]
    · obtain ⟨k, hk⟩ := Nat.exists_eq_add_of_le (Nat.le_of_lt hsame)
      have h1 : 32 - (bs.offset + n) = k := by omega
      have h2 : 32 - bs.offset = n + k := by omega
      have hlt : v * 2 ^ k < 2 ^ (n + k) := by
        rw [Nat.pow_add]
        exact Nat.mul_lt_mul_of_pos_right hv (Nat.two_pow_pos _)
      have h32 : (2 : Nat) ^ (n + k) ≤ 2 ^ 32 := Nat.pow_le_pow_right (by decide) (by omega)
      have hword : u32 (v <<< k) = v * 2 ^ k := by
        rw [Nat.shiftLeft_eq]
        exact Nat.mod_eq_of_lt (by omega)
      dsimp only
      rw [haccumulator, h1, h2, hword, or_eq_add hlt, ofBits_append, toBits_length,
        ofBits_toBits_of_lt hv, Nat.add_mul, Nat.mul_assoc, ← Nat.pow_add]
  · -- the word is full: the first bits complete it, the others begin the next
    obtain ⟨k, hk⟩ : ∃ k, bs.offset + n = 32 + k := ⟨bs.offset + n - 32, by omega⟩
    have hback : bs.offset + n - 32 = k := by omega
    have hfirst : n - k = 32 - bs.offset := by omega
    have hn' : n = (32 - bs.offset) + k := by omega
    have hdiv : v / 2 ^ k < 2 ^ (32 - bs.offset) := by
      rw [Nat.div_lt_iff_lt_mul (Nat.two_pow_pos k), ← Nat.pow_add, ← hn']
      exact hv
    have hword : bs.accumulator ||| ((v >>> k) &&& (1 <<< (n - k) - 1)) =
        ofBits (rest ++ toBits (32 - bs.offset) (v / 2 ^ k)) := by
      rw [haccumulator, hfirst, and_ones, Nat.shiftRight_eq_div_pow, Nat.mod_eq_of_lt hdiv,
        or_eq_add hdiv, ofBits_append, toBits_length, ofBits_toBits_of_lt hdiv]
    have hfull : (rest ++ toBits (32 - bs.offset) (v / 2 ^ k)).length = 32 := by
      rw [List.length_append, toBits_length, hrest]
      omega
    have hboth : toBits n v = toBits (32 - bs.offset) (v / 2 ^ k) ++ toBits k v := by
      rw [← toBits_add, ← hn']
    have hspelt := toBits_ofBits (rest ++ toBits (32 - bs.offset) (v / 2 ^ k))
    rw [hfull] at hspelt
    rw [if_neg hsame, hback, hword]
    generalize hfs : wBitStream.mk bs.buffer bs.capacity bs.pointer (bs.position + n) k bs.prefetch
      (ofBits (rest ++ toBits (32 - bs.offset) (v / 2 ^ k))) = fs
    have hpointer : fs.Flush.pointer = bs.pointer := by rw [Flush_pointer, ← hfs]
    have hcapacity : fs.Flush.capacity = bs.capacity := by rw [Flush_capacity, ← hfs]
    have hplace : fs.Flush.position = bs.position + n := by rw [Flush_position, ← hfs]
    have hrestart : fs.Flush.offset = k := by rw [Flush_offset, ← hfs]
    have hdown : bitsOf (read fs.Flush.buffer 0 (bs.pointer + 4)) =
        bits ++ toBits (32 - bs.offset) (v / 2 ^ k) := by
      have hflush := Flush_bytes fs (j := 4) (by decide) (by rw [← hfs]; dsimp only; omega)
      rw [← hfs] at hflush ⊢
      dsimp only at hflush
      rw [hspelt, List.take_of_length_le (by omega)] at hflush
      rw [hbits, List.append_assoc]
      exact hflush
    generalize fs.Flush = bs' at hpointer hcapacity hplace hrestart hdown ⊢
    by_cases hend : k = 0
    · subst hend
      rw [if_pos hrestart]
      refine ⟨⟨?_, ?_, ?_, [], ?_, ?_, ?_⟩, hcapacity⟩
      · exact hcapacity ▸ hlong
      · rw [List.length_append, toBits_length, ← hposition]
        exact hplace
      · dsimp only
        omega
      · rw [hboth, List.append_nil, bytes, hpointer, hdown]
        simp [toBits]
      · exact hrestart.symm
      · exact (Nat.zero_mul _).symm
    · rw [if_neg (by rwa [hrestart])]
      refine ⟨⟨?_, ?_, ?_, toBits k v, ?_, ?_, ?_⟩, hcapacity⟩
      · exact hcapacity ▸ hlong
      · rw [List.length_append, toBits_length, ← hposition]
        exact hplace
      · dsimp only
        omega
      · rw [hboth, ← List.append_assoc, bytes, hpointer, hdown]
      · rw [toBits_length]
        exact hrestart.symm
      · have hlow : v % 2 ^ k * 2 ^ (32 - k) < 2 ^ 32 := by
          have hlt : v % 2 ^ k < 2 ^ k := Nat.mod_lt _ (Nat.two_pow_pos k)
          have h32 : (2 : Nat) ^ 32 = 2 ^ k * 2 ^ (32 - k) := by
            rw [← Nat.pow_add]
            congr 1
            omega
          rw [h32]
          exact Nat.mul_lt_mul_of_pos_right hlt (Nat.two_pow_pos _)
        dsimp only
        rw [hrestart, Nat.zero_or, and_ones, ofBits_toBits, Nat.shiftLeft_eq]
        exact Nat.mod_eq_of_lt hlow

/-- **What has been flushed**: the bits and zeros up to the end of the byte. -/
theorem Written.flush {bs : wBitStream} {bits : List Bool} (h : Written bs bits) :
    ∃ pad < 8, bitsOf (bs.Flush.bytes ((bits.length + 7) / 8)) =
      bits ++ List.replicate pad false := by
  have hlength := h.length_eq
  obtain ⟨hroom, -, hoffset, rest, hbits, hrest, haccumulator⟩ := h
  obtain ⟨j, hj⟩ : ∃ j, (bits.length + 7) / 8 = bs.pointer + j :=
    ⟨(bits.length + 7) / 8 - bs.pointer, by omega⟩
  have hword : toBits 32 bs.accumulator = rest ++ List.replicate (32 - bs.offset) false := by
    have hzero : rest.length + (32 - bs.offset) = 32 := by omega
    have hsplit := toBits_mul_add (m := rest.length) (n := 32 - bs.offset) (a := ofBits rest)
      (b := 0) (Nat.two_pow_pos _)
    rw [hzero, Nat.add_zero, toBits_ofBits, toBits_zero] at hsplit
    rw [haccumulator, hsplit]
  refine ⟨8 * (bs.pointer + j) - bits.length, by omega, ?_⟩
  rw [hj, Flush_bytes bs (by omega) (by omega), hword, hbits, List.take_append,
    List.take_of_length_le (by omega), List.take_replicate, List.append_assoc, ← hbits]
  congr 3
  omega

end wBitStream

end TiraRdp
