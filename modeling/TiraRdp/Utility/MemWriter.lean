import TiraRdp.Lib.Counted
import TiraRdp.Utility.DataBuffer

/-!
# `MemWriter` and `MemReader`

Model of `common/utility/private/common/MemWriter.cpp` and `MemReader.cpp`: cursors over a buffer of
the caller's, with the fixed-width types of the source. `char` is signed and an `int` has 32 bits;
an operand narrower than `int` is promoted to it (`promote`), a left shift in it keeps 32 bits.

* The memory is `Mem UInt8`; `m_Buf` is the address of the cursor. Sums in an `ENSURE` wrap, as an
  `unsigned int` and the `size_t` of a Win32 build do.
* `Scalar` is a value with its type; `write` and `read` dispatch to the source's functions.

Results: while there is room, a write puts the big-endian bytes of its value at the cursor and
nothing else (`Scalar.write_spec`), and a read of its type takes such bytes back
(`Scalar.read_spec`); so whole sequences go round (`Scalar.write_read_round_trip`).
-/

namespace TiraRdp

open Lib Lib.Counted

structure MemWriter where
  mem : Mem UInt8
  m_Buf : Nat
  m_Size : Nat
  m_BytesConsumed : Nat

namespace MemWriter

/-- `MemWriter(buf, size)`. -/
def new (mem : Mem UInt8) (buf size : Nat) : MemWriter := ⟨mem, buf, size, 0⟩

def WriteUINT8 (w : MemWriter) (x : UInt8) : Except Fault MemWriter :=
  if u32 (w.m_BytesConsumed + 1) ≤ w.m_Size then
    .ok { w with
      mem := w.mem.write w.m_Buf [x]
      m_Buf := w.m_Buf + 1
      m_BytesConsumed := u32 (w.m_BytesConsumed + 1) }
  else .error (.ensure "m_BytesConsumed + sizeof(x) <= m_Size")

def WriteINT8 (w : MemWriter) (x : Int8) : Except Fault MemWriter := w.WriteUINT8 x.toUInt8

def WriteUINT16 (w : MemWriter) (x : UInt16) : Except Fault MemWriter := do
  let w ← w.WriteINT8 (x >>> 8).toUInt8.toInt8
  w.WriteINT8 (x &&& 0xff).toUInt8.toInt8

def WriteINT16 (w : MemWriter) (x : Int16) : Except Fault MemWriter := w.WriteUINT16 x.toUInt16

def WriteUINT32 (w : MemWriter) (x : UInt32) : Except Fault MemWriter := do
  let w ← w.WriteUINT16 (x >>> 16).toUInt16
  w.WriteUINT16 (x &&& 0xffff).toUInt16

def WriteINT32 (w : MemWriter) (x : Int32) : Except Fault MemWriter := w.WriteUINT32 x.toUInt32

def WriteUINT64 (w : MemWriter) (x : UInt64) : Except Fault MemWriter := do
  let w ← w.WriteUINT32 (x >>> 32).toUInt32
  w.WriteUINT32 (x &&& 0xffffffff).toUInt32

def WriteINT64 (w : MemWriter) (x : Int64) : Except Fault MemWriter := w.WriteUINT64 x.toUInt64

/-- `bs` at the cursor, and the cursor behind them. -/
def put (w : MemWriter) (bs : Bytes) : MemWriter :=
  { w with
    mem := w.mem.write w.m_Buf bs
    m_Buf := w.m_Buf + bs.length
    m_BytesConsumed := w.m_BytesConsumed + bs.length }

/-- There is room for `n` bytes. -/
def Room (w : MemWriter) (n : Nat) : Prop := w.m_BytesConsumed + n ≤ w.m_Size ∧ w.m_Size < 2 ^ 32

variable {w : MemWriter} {n : Nat}

theorem put_put (w : MemWriter) (bs cs : Bytes) : (w.put bs).put cs = w.put (bs ++ cs) := by
  unfold put
  rw [Mem.write_write_append, List.length_append, Nat.add_assoc, Nat.add_assoc]

theorem Room.put {bs : Bytes} (h : w.Room (bs.length + n)) : (w.put bs).Room n := by
  obtain ⟨hroom, hsize⟩ := h
  refine ⟨?_, hsize⟩
  rw [MemWriter.put, Nat.add_assoc]
  exact hroom

theorem Room.mono {m : Nat} (h : w.Room m) (hle : n ≤ m) : w.Room n :=
  ⟨Nat.le_trans (Nat.add_le_add_left hle _) h.1, h.2⟩

theorem be_one (n : Nat) : be 1 n = [UInt8.ofNat n] := by
  rw [be, be, Nat.pow_zero, Nat.div_one]

theorem WriteUINT8_spec (h : w.Room 1) (x : UInt8) :
    w.WriteUINT8 x = .ok (w.put (be 1 x.toNat)) := by
  obtain ⟨hroom, hsize⟩ := h
  rw [WriteUINT8, u32_of_lt (by omega), if_pos hroom, be_one, UInt8.ofNat_toNat]
  rfl

/-- Two writes of `n` bytes each, one behind the other. -/
theorem write_both {write : MemWriter → Except Fault MemWriter} {first second : Nat}
    {write' : MemWriter → Except Fault MemWriter}
    (hfirst : ∀ {w : MemWriter}, w.Room n → write w = .ok (w.put (be n first)))
    (hsecond : ∀ {w : MemWriter}, w.Room n → write' w = .ok (w.put (be n second)))
    (h : w.Room (n + n)) : write w >>= write' = .ok (w.put (be n first ++ be n second)) := by
  have hrest : (w.put (be n first)).Room n := Room.put (by rwa [be_length])
  rw [hfirst (h.mono (Nat.le_add_right n n))]
  exact (hsecond hrest).trans (congrArg _ (put_put w _ _))

theorem WriteUINT16_spec (h : w.Room 2) (x : UInt16) :
    w.WriteUINT16 x = .ok (w.put (be 2 x.toNat)) := by
  have hx := x.toNat_lt
  have hhigh : (x >>> 8).toUInt8.toInt8.toUInt8.toNat = x.toNat / 256 ^ 1 := by
    simp [Nat.shiftRight_eq_div_pow]
    omega
  have hlow : (x &&& 0xff).toUInt8.toInt8.toUInt8.toNat = x.toNat % 256 ^ 1 := by
    have hmask : x.toNat &&& 255 = x.toNat % 256 := Nat.and_two_pow_sub_one_eq_mod x.toNat 8
    rw [UInt8.toUInt8_toInt8, UInt16.toNat_toUInt8, UInt16.toNat_and]
    show (x.toNat &&& 255) % 256 = x.toNat % 256
    rw [hmask, Nat.mod_mod]
  have hbytes : be 2 x.toNat = be 1 (x.toNat / 256 ^ 1) ++ be 1 x.toNat := be_add 1 1 x.toNat
  rw [hbytes, ← be_mod (Nat.le_refl 1) x.toNat, ← hhigh, ← hlow]
  exact write_both (fun hw => WriteUINT8_spec hw _) (fun hw => WriteUINT8_spec hw _) h

theorem WriteUINT32_spec (h : w.Room 4) (x : UInt32) :
    w.WriteUINT32 x = .ok (w.put (be 4 x.toNat)) := by
  have hx := x.toNat_lt
  have hhigh : (x >>> 16).toUInt16.toNat = x.toNat / 256 ^ 2 := by
    simp [Nat.shiftRight_eq_div_pow]
    omega
  have hlow : (x &&& 0xffff).toUInt16.toNat = x.toNat % 256 ^ 2 := by
    have hmask : x.toNat &&& 65535 = x.toNat % 65536 := Nat.and_two_pow_sub_one_eq_mod x.toNat 16
    rw [UInt32.toNat_toUInt16, UInt32.toNat_and]
    show (x.toNat &&& 65535) % 65536 = x.toNat % 65536
    rw [hmask, Nat.mod_mod]
  have hbytes : be 4 x.toNat = be 2 (x.toNat / 256 ^ 2) ++ be 2 x.toNat := be_add 2 2 x.toNat
  rw [hbytes, ← be_mod (Nat.le_refl 2) x.toNat, ← hhigh, ← hlow]
  exact write_both (fun hw => WriteUINT16_spec hw _) (fun hw => WriteUINT16_spec hw _) h

theorem WriteUINT64_spec (h : w.Room 8) (x : UInt64) :
    w.WriteUINT64 x = .ok (w.put (be 8 x.toNat)) := by
  have hx := x.toNat_lt
  have hhigh : (x >>> 32).toUInt32.toNat = x.toNat / 256 ^ 4 := by
    simp [Nat.shiftRight_eq_div_pow]
    omega
  have hlow : (x &&& 0xffffffff).toUInt32.toNat = x.toNat % 256 ^ 4 := by
    have hmask : x.toNat &&& 4294967295 = x.toNat % 4294967296 :=
      Nat.and_two_pow_sub_one_eq_mod x.toNat 32
    rw [UInt64.toNat_toUInt32, UInt64.toNat_and]
    show (x.toNat &&& 4294967295) % 4294967296 = x.toNat % 4294967296
    rw [hmask, Nat.mod_mod]
  have hbytes : be 8 x.toNat = be 4 (x.toNat / 256 ^ 4) ++ be 4 x.toNat := be_add 4 4 x.toNat
  rw [hbytes, ← be_mod (Nat.le_refl 4) x.toNat, ← hhigh, ← hlow]
  exact write_both (fun hw => WriteUINT32_spec hw _) (fun hw => WriteUINT32_spec hw _) h

end MemWriter

structure MemReader where
  mem : Mem UInt8
  m_Buf : Nat
  m_Size : Nat
  m_BytesConsumed : Nat

namespace MemReader

/-- The value of an `unsigned char` and of an `unsigned short` as an `int`. -/
def promote8 (x : UInt8) : Int32 := x.toUInt32.toInt32
def promote16 (x : UInt16) : Int32 := x.toUInt32.toInt32

/-- `MemReader(buf, size)`. -/
def new (mem : Mem UInt8) (buf size : Nat) : MemReader := ⟨mem, buf, size, 0⟩

def ReadUINT8 (r : MemReader) : Except Fault (UInt8 × MemReader) :=
  if u32 (r.m_BytesConsumed + 1) ≤ r.m_Size then
    .ok (r.mem r.m_Buf, { r with
      m_Buf := r.m_Buf + 1
      m_BytesConsumed := u32 (r.m_BytesConsumed + 1) })
  else .error (.ensure "m_BytesConsumed + sizeof(unsigned char) <= m_Size")

def ReadINT8 (r : MemReader) : Except Fault (Int8 × MemReader) := do
  let (x, r) ← r.ReadUINT8
  return (x.toInt8, r)

def ReadUINT16 (r : MemReader) : Except Fault (UInt16 × MemReader) := do
  let (high, r) ← r.ReadUINT8
  let x := (promote8 high <<< 8).toUInt32.toUInt16
  let (low, r) ← r.ReadUINT8
  return ((promote16 x + promote8 low).toUInt32.toUInt16, r)

def ReadINT16 (r : MemReader) : Except Fault (Int16 × MemReader) := do
  let (x, r) ← r.ReadUINT16
  return (x.toInt16, r)

def ReadUINT32 (r : MemReader) : Except Fault (UInt32 × MemReader) := do
  let (high, r) ← r.ReadUINT16
  -- from 0x8000 on the shifted `int` is negative
  let x := (promote16 high <<< 16).toUInt32
  let (low, r) ← r.ReadUINT16
  return (x + (promote16 low).toUInt32, r)

def ReadINT32 (r : MemReader) : Except Fault (Int32 × MemReader) := do
  let (x, r) ← r.ReadUINT32
  return (x.toInt32, r)

def ReadUINT64 (r : MemReader) : Except Fault (UInt64 × MemReader) := do
  let (high, r) ← r.ReadUINT32
  let x := high.toUInt64 <<< 32
  let (low, r) ← r.ReadUINT32
  return (x + low.toUInt64, r)

def ReadINT64 (r : MemReader) : Except Fault (Int64 × MemReader) := do
  let (x, r) ← r.ReadUINT64
  return (x.toInt64, r)

/-- `n` bytes further. -/
def skip (r : MemReader) (n : Nat) : MemReader :=
  { r with m_Buf := r.m_Buf + n, m_BytesConsumed := r.m_BytesConsumed + n }

/-- The bytes at the cursor are `bs`, all inside the buffer. -/
def Shows (r : MemReader) (bs : Bytes) : Prop :=
  r.mem.read r.m_Buf bs.length = bs ∧ r.m_BytesConsumed + bs.length ≤ r.m_Size ∧ r.m_Size < 2 ^ 32

variable {r : MemReader}

theorem skip_skip (r : MemReader) (m n : Nat) : (r.skip m).skip n = r.skip (m + n) := by
  simp only [skip, Nat.add_assoc]

theorem Shows.left {bs cs : Bytes} (h : r.Shows (bs ++ cs)) : r.Shows bs := by
  obtain ⟨hread, hroom, hsize⟩ := h
  rw [List.length_append] at hread hroom
  rw [Mem.read_add] at hread
  exact ⟨(List.append_inj hread (Mem.read_length _ _ _)).1, by omega, hsize⟩

theorem Shows.right {bs cs : Bytes} (h : r.Shows (bs ++ cs)) : (r.skip bs.length).Shows cs := by
  obtain ⟨hread, hroom, hsize⟩ := h
  rw [List.length_append] at hread hroom
  rw [Mem.read_add] at hread
  refine ⟨(List.append_inj hread (Mem.read_length _ _ _)).2, ?_, hsize⟩
  rw [skip, Nat.add_assoc]
  exact hroom

/-- Both halves of a number that is `n + n` bytes wide. -/
theorem Shows.halves {n value : Nat} (h : r.Shows (be (n + n) value)) :
    r.Shows (be n (value / 256 ^ n)) ∧ (r.skip n).Shows (be n value) := by
  rw [be_add] at h
  have hlow := h.right
  rw [be_length] at hlow
  exact ⟨h.left, hlow⟩

theorem ReadUINT8_spec {value : Nat} (h : r.Shows (be 1 value)) :
    r.ReadUINT8 = .ok (UInt8.ofNat value, r.skip 1) := by
  obtain ⟨hread, hroom, hsize⟩ := h
  rw [be_length] at hread hroom
  rw [MemWriter.be_one] at hread
  have hx : r.mem r.m_Buf = UInt8.ofNat value := List.singleton_inj.mp hread
  rw [ReadUINT8, u32_of_lt (by omega), if_pos hroom, hx]
  rfl

/-- A shifted byte and the next one, by way of `int`. -/
theorem ofNat_eq_promote8 (value : Nat) :
    (promote16 (promote8 (UInt8.ofNat (value / 256)) <<< 8).toUInt32.toUInt16 +
      promote8 (UInt8.ofNat value)).toUInt32.toUInt16 = UInt16.ofNat value := by
  have hshift (high : UInt8) : (promote8 high <<< 8).toUInt32 = high.toUInt32 <<< 8 := rfl
  rw [hshift]
  unfold promote16 promote8
  rw [← UInt16.toNat_inj]
  simp [Nat.shiftLeft_eq]
  omega

theorem ReadUINT16_spec {value : Nat} (h : r.Shows (be 2 value)) :
    r.ReadUINT16 = .ok (UInt16.ofNat value, r.skip 2) := by
  obtain ⟨hhigh, hlow⟩ := Shows.halves (n := 1) h
  rw [ReadUINT16, ReadUINT8_spec hhigh]
  show ((r.skip 1).ReadUINT8 >>= _) = _
  rw [ReadUINT8_spec hlow, ← ofNat_eq_promote8]
  rfl

/-- A shifted word and the next one; the shift may make the `int` negative. -/
theorem ofNat_eq_promote16 (value : Nat) :
    (promote16 (UInt16.ofNat (value / 65536)) <<< 16).toUInt32 +
      (promote16 (UInt16.ofNat value)).toUInt32 = UInt32.ofNat value := by
  have hshift (high : UInt16) : (promote16 high <<< 16).toUInt32 = high.toUInt32 <<< 16 := rfl
  rw [hshift]
  unfold promote16
  rw [← UInt32.toNat_inj]
  simp [Nat.shiftLeft_eq]
  omega

theorem ReadUINT32_spec {value : Nat} (h : r.Shows (be 4 value)) :
    r.ReadUINT32 = .ok (UInt32.ofNat value, r.skip 4) := by
  obtain ⟨hhigh, hlow⟩ := Shows.halves (n := 2) h
  rw [ReadUINT32, ReadUINT16_spec hhigh]
  show ((r.skip 2).ReadUINT16 >>= _) = _
  rw [ReadUINT16_spec hlow, ← ofNat_eq_promote16]
  rfl

theorem ofNat_eq_toUInt64 (value : Nat) :
    (UInt32.ofNat (value / 4294967296)).toUInt64 <<< 32 + (UInt32.ofNat value).toUInt64 =
      UInt64.ofNat value := by
  rw [← UInt64.toNat_inj]
  simp [Nat.shiftLeft_eq]
  omega

theorem ReadUINT64_spec {value : Nat} (h : r.Shows (be 8 value)) :
    r.ReadUINT64 = .ok (UInt64.ofNat value, r.skip 8) := by
  obtain ⟨hhigh, hlow⟩ := Shows.halves (n := 4) h
  rw [ReadUINT64, ReadUINT32_spec hhigh]
  show ((r.skip 4).ReadUINT32 >>= _) = _
  rw [ReadUINT32_spec hlow, ← ofNat_eq_toUInt64]
  rfl

end MemReader

/-! ## Sequences of values -/

inductive ScalarType where
  | UINT8
  | INT8
  | UINT16
  | INT16
  | UINT32
  | INT32
  | UINT64
  | INT64
  deriving Repr, DecidableEq

/-- `sizeof`. -/
def ScalarType.size : ScalarType → Nat
  | .UINT8 | .INT8 => 1
  | .UINT16 | .INT16 => 2
  | .UINT32 | .INT32 => 4
  | .UINT64 | .INT64 => 8

/-- A value of each type that has a write and a read. -/
inductive Scalar where
  | UINT8 (x : UInt8)
  | INT8 (x : Int8)
  | UINT16 (x : UInt16)
  | INT16 (x : Int16)
  | UINT32 (x : UInt32)
  | INT32 (x : Int32)
  | UINT64 (x : UInt64)
  | INT64 (x : Int64)
  deriving DecidableEq

namespace Scalar

def type : Scalar → ScalarType
  | .UINT8 _ => .UINT8
  | .INT8 _ => .INT8
  | .UINT16 _ => .UINT16
  | .INT16 _ => .INT16
  | .UINT32 _ => .UINT32
  | .INT32 _ => .INT32
  | .UINT64 _ => .UINT64
  | .INT64 _ => .INT64

def size (v : Scalar) : Nat := v.type.size

/-- The number that the bits of the value are; two's complement where it has a sign. -/
def bits : Scalar → Nat
  | .UINT8 x => x.toNat
  | .INT8 x => x.toUInt8.toNat
  | .UINT16 x => x.toNat
  | .INT16 x => x.toUInt16.toNat
  | .UINT32 x => x.toNat
  | .INT32 x => x.toUInt32.toNat
  | .UINT64 x => x.toNat
  | .INT64 x => x.toUInt64.toNat

/-- The value's bytes, most significant first. -/
def bytes (v : Scalar) : Bytes := be v.size v.bits

def write : Scalar → MemWriter → Except Fault MemWriter
  | .UINT8 x, w => w.WriteUINT8 x
  | .INT8 x, w => w.WriteINT8 x
  | .UINT16 x, w => w.WriteUINT16 x
  | .INT16 x, w => w.WriteINT16 x
  | .UINT32 x, w => w.WriteUINT32 x
  | .INT32 x, w => w.WriteINT32 x
  | .UINT64 x, w => w.WriteUINT64 x
  | .INT64 x, w => w.WriteINT64 x

def read : ScalarType → MemReader → Except Fault (Scalar × MemReader)
  | .UINT8, r => r.ReadUINT8.map fun (x, r) => (.UINT8 x, r)
  | .INT8, r => r.ReadINT8.map fun (x, r) => (.INT8 x, r)
  | .UINT16, r => r.ReadUINT16.map fun (x, r) => (.UINT16 x, r)
  | .INT16, r => r.ReadINT16.map fun (x, r) => (.INT16 x, r)
  | .UINT32, r => r.ReadUINT32.map fun (x, r) => (.UINT32 x, r)
  | .INT32, r => r.ReadINT32.map fun (x, r) => (.INT32 x, r)
  | .UINT64, r => r.ReadUINT64.map fun (x, r) => (.UINT64 x, r)
  | .INT64, r => r.ReadINT64.map fun (x, r) => (.INT64 x, r)

def writeAll : List Scalar → MemWriter → Except Fault MemWriter
  | [], w => .ok w
  | v :: vs, w => v.write w >>= writeAll vs

def readAll : List ScalarType → MemReader → Except Fault (List Scalar × MemReader)
  | [], r => .ok ([], r)
  | t :: ts, r => do
    let (v, r) ← read t r
    let (vs, r) ← readAll ts r
    return (v :: vs, r)

/-- How many bytes the values take. -/
def total (vs : List Scalar) : Nat := (vs.map size).sum

@[simp] theorem bytes_length (v : Scalar) : v.bytes.length = v.size := be_length _ _

theorem flatMap_bytes_length (vs : List Scalar) : (vs.flatMap bytes).length = total vs := by
  rw [List.length_flatMap, total]
  simp only [bytes_length]

/-- **A write** puts the value's bytes at the cursor. -/
theorem write_spec {w : MemWriter} {v : Scalar} (h : w.Room v.size) :
    v.write w = .ok (w.put v.bytes) := by
  cases v with
  | UINT8 x => exact MemWriter.WriteUINT8_spec h x
  | INT8 x => exact MemWriter.WriteUINT8_spec h x.toUInt8
  | UINT16 x => exact MemWriter.WriteUINT16_spec h x
  | INT16 x => exact MemWriter.WriteUINT16_spec h x.toUInt16
  | UINT32 x => exact MemWriter.WriteUINT32_spec h x
  | INT32 x => exact MemWriter.WriteUINT32_spec h x.toUInt32
  | UINT64 x => exact MemWriter.WriteUINT64_spec h x
  | INT64 x => exact MemWriter.WriteUINT64_spec h x.toUInt64

/-- **A read** of its type takes them back. -/
theorem read_spec {r : MemReader} {v : Scalar} (h : r.Shows v.bytes) :
    read v.type r = .ok (v, r.skip v.size) := by
  cases v with
  | UINT8 x => rw [type, read, MemReader.ReadUINT8_spec h, bits, UInt8.ofNat_toNat]; rfl
  | INT8 x =>
    rw [type, read, MemReader.ReadINT8, MemReader.ReadUINT8_spec h, bits, UInt8.ofNat_toNat]; rfl
  | UINT16 x => rw [type, read, MemReader.ReadUINT16_spec h, bits, UInt16.ofNat_toNat]; rfl
  | INT16 x =>
    rw [type, read, MemReader.ReadINT16, MemReader.ReadUINT16_spec h, bits, UInt16.ofNat_toNat]; rfl
  | UINT32 x => rw [type, read, MemReader.ReadUINT32_spec h, bits, UInt32.ofNat_toNat]; rfl
  | INT32 x =>
    rw [type, read, MemReader.ReadINT32, MemReader.ReadUINT32_spec h, bits, UInt32.ofNat_toNat]; rfl
  | UINT64 x => rw [type, read, MemReader.ReadUINT64_spec h, bits, UInt64.ofNat_toNat]; rfl
  | INT64 x =>
    rw [type, read, MemReader.ReadINT64, MemReader.ReadUINT64_spec h, bits, UInt64.ofNat_toNat]; rfl

theorem writeAll_spec {vs : List Scalar} :
    ∀ {w : MemWriter}, w.Room (total vs) → writeAll vs w = .ok (w.put (vs.flatMap bytes)) := by
  induction vs with
  | nil =>
    intro w _
    have hput : w.put [] = w := by
      unfold MemWriter.put
      congr 1
      funext j
      rw [Mem.write_of_not_mem _ (by simpa using Nat.lt_or_ge j w.m_Buf)]
    rw [List.flatMap_nil, hput, writeAll]
  | cons v vs ih =>
    intro w h
    have hroom : w.Room (v.size + total vs) := h
    have hrest : (w.put v.bytes).Room (total vs) := MemWriter.Room.put (by rwa [bytes_length])
    rw [writeAll, write_spec (hroom.mono (Nat.le_add_right _ _)), List.flatMap_cons,
      ← MemWriter.put_put]
    exact ih hrest

theorem readAll_spec {vs : List Scalar} : ∀ {r : MemReader}, r.Shows (vs.flatMap bytes) →
    readAll (vs.map type) r = .ok (vs, r.skip (total vs)) := by
  induction vs with
  | nil => exact fun _ => rfl
  | cons v vs ih =>
    intro r h
    rw [List.flatMap_cons] at h
    have hrest := h.right
    rw [bytes_length] at hrest
    have hskip : total (v :: vs) = v.size + total vs := rfl
    rw [List.map_cons, readAll, read_spec h.left, hskip, ← MemReader.skip_skip]
    show ((readAll (vs.map type) (r.skip v.size)) >>= _) = _
    rw [ih hrest]
    rfl

/-- **Round trip.** Values that fit the buffer are written without a throw, as their bytes in
big-endian order and nothing else; a reader over the same bytes gives the same values; both cursors
move by exactly the size of the values. -/
theorem write_read_round_trip (mem : Mem UInt8) (buf : Nat) {size : Nat} (vs : List Scalar)
    (hsize : size < 2 ^ 32) (hfit : total vs ≤ size) :
    ∃ w r, writeAll vs (.new mem buf size) = .ok w ∧
      w.m_Buf = buf + total vs ∧ w.m_BytesConsumed = total vs ∧
      w.mem.read buf (total vs) = vs.flatMap bytes ∧
      (∀ j, j < buf ∨ buf + total vs ≤ j → w.mem j = mem j) ∧
      readAll (vs.map type) (.new w.mem buf size) = .ok (vs, r) ∧
      r.m_Buf = buf + total vs ∧ r.m_BytesConsumed = total vs := by
  have hlen := flatMap_bytes_length vs
  have hfit' : 0 + total vs ≤ size := Nat.le_trans (Nat.le_of_eq (Nat.zero_add _)) hfit
  have hroom : (MemWriter.new mem buf size).Room (total vs) := ⟨hfit', hsize⟩
  have hread : (mem.write buf (vs.flatMap bytes)).read buf (total vs) = vs.flatMap bytes :=
    hlen ▸ Mem.read_write_same mem buf (vs.flatMap bytes)
  have hshows :
      (MemReader.new (mem.write buf (vs.flatMap bytes)) buf size).Shows (vs.flatMap bytes) := by
    refine ⟨hlen ▸ hread, ?_, hsize⟩
    rw [hlen]
    exact hfit'
  refine ⟨_, _, writeAll_spec hroom, ?_, ?_, hread, ?_, readAll_spec hshows, rfl, Nat.zero_add _⟩
  · rw [MemWriter.put, hlen]
    rfl
  · rw [MemWriter.put, hlen]
    exact Nat.zero_add _
  · intro j hj
    exact Mem.write_of_not_mem _ (hlen ▸ hj)

/-- Seven bytes of three types in a buffer of eight. -/
theorem write_read_round_trip_seven :
    let vs : List Scalar := [.INT16 (-2), .UINT8 200, .INT32 (-559038737)]
    ∃ w r, writeAll vs (.new (fun _ => 0xaa) 100 8) = .ok w ∧
      w.m_Buf = 107 ∧ w.m_BytesConsumed = 7 ∧
      w.mem.read 100 7 = [0xff, 0xfe, 200, 0xde, 0xad, 0xbe, 0xef] ∧
      (∀ j, j < 100 ∨ 107 ≤ j → w.mem j = 0xaa) ∧
      readAll (vs.map type) (.new w.mem 100 8) = .ok (vs, r) ∧
      r.m_Buf = 107 ∧ r.m_BytesConsumed = 7 :=
  write_read_round_trip (fun _ => 0xaa) 100 [.INT16 (-2), .UINT8 200, .INT32 (-559038737)]
    (by decide) (by decide)

end Scalar

end TiraRdp
