import TiraRdp.Lib.Memory
import TiraRdp.Lib.Word

/-!
# `Buffer` and `DataBuffer`

Model of `Buffer<unsigned char>` (`common/utility/include/buffer.h`) and `DataBuffer<unsigned char>`
(`common/utility/include/DataBuffer.h`), the only instantiation in the repository, so
`sizeof(BaseDataType)` is 1. Lengths are `unsigned int`; the sum in `AppendFrom`'s `ENSURE` wraps.

* `m_Buffer` is the block the pointer names, `m_BufferSize` its size. A `memcpy` that leaves the
  block is `Fault.outOfBounds`, not an exception.
* A new block comes from `fresh`, which gives the contents that `new BaseDataType[n]` leaves
  indeterminate. Every result is for an arbitrary `fresh`. Allocation itself succeeds.

Results: `AppendFrom_spec`, `SetBufferSizeLowerBound_spec` and their effect on the data held,
`data`.
-/

namespace TiraRdp

open Lib

/-- How an operation fails: a failed `ENSURE` throws; the others are undefined behaviour. -/
inductive Fault where
  | ensure (expr : String)
  | outOfBounds
  | wildPointer
  deriving Repr, DecidableEq

/-- `Buffer` and, over it, `DataBuffer`. -/
structure DataBuffer where
  m_Buffer : Mem UInt8
  m_BufferSize : Nat
  m_IsOwnResource : Bool
  m_DataLength : Nat

namespace DataBuffer

/-- `DataBuffer()`: no block yet, so what `m_Buffer` names is of size 0. -/
def new : DataBuffer := ⟨fun _ => 0, 0, true, 0⟩

/-- The data held: the first `m_DataLength` bytes of the block. -/
def data (b : DataBuffer) : Bytes := b.m_Buffer.read 0 b.m_DataLength

/-- `Buffer::SetBufferSizeLowerBound` (`buffer.h:33-42`). -/
def SetBufferSizeLowerBound (fresh : Nat → Mem UInt8) (b : DataBuffer) (newSize : Nat) :
    Except Fault DataBuffer :=
  if newSize > b.m_BufferSize then
    if b.m_IsOwnResource then
      .ok { b with m_BufferSize := newSize, m_Buffer := fresh newSize }
    else .error (.ensure "m_IsOwnResource")
  else .ok b

/-- `Buffer::GetPtrForWriting` (`buffer.h:52-56`), as an offset into the block. -/
def GetPtrForWriting (b : DataBuffer) (position : Nat) : Except Fault Nat :=
  if position < b.m_BufferSize then .ok position
  else .error (.ensure "sizeof(BaseDataType) * position < m_BufferSize")

/-- `memcpy` into the block. -/
def copyTo (b : DataBuffer) (off : Nat) (src : Bytes) : Except Fault DataBuffer :=
  if off + src.length ≤ b.m_BufferSize then .ok { b with m_Buffer := b.m_Buffer.write off src }
  else .error .outOfBounds

/-- `DataBuffer::AppendFrom` (`DataBuffer.h:18-32`) of the first `len` bytes of `pSrc`. -/
def AppendFrom (b : DataBuffer) (pSrc : Bytes) (len : Nat) : Except Fault DataBuffer :=
  if u32 (len + b.m_DataLength) ≤ b.m_BufferSize then
    match b.copyTo b.m_DataLength (pSrc.take len) with
    | .error e => .error e
    | .ok b' => .ok { b' with m_DataLength := u32 (b.m_DataLength + len) }
  else .error (.ensure "len + m_DataLength <= this->m_BufferSize")

/-- `DataBuffer::GetSpaceLeave`: the difference wraps. -/
def GetSpaceLeave (b : DataBuffer) : Nat := u32 (b.m_BufferSize + 2 ^ 32 - b.m_DataLength)

/-- `DataBuffer::GetDataLength`. -/
def GetDataLength (b : DataBuffer) : Nat := b.m_DataLength

/-- `DataBuffer::Clear`. -/
def Clear (b : DataBuffer) : DataBuffer := { b with m_DataLength := 0 }

@[simp] theorem data_Clear (b : DataBuffer) : b.Clear.data = [] := rfl

@[simp] theorem Clear_m_BufferSize (b : DataBuffer) : b.Clear.m_BufferSize = b.m_BufferSize := rfl

@[simp] theorem data_length (b : DataBuffer) : b.data.length = b.m_DataLength := by
  simp [data]

theorem GetSpaceLeave_of_le {b : DataBuffer} (hsz : b.m_BufferSize < 2 ^ 32)
    (h : b.m_DataLength ≤ b.m_BufferSize) : b.GetSpaceLeave = b.m_BufferSize - b.m_DataLength := by
  unfold GetSpaceLeave u32
  omega

/-- Where the data and what is appended fit into the block, `AppendFrom` appends. -/
theorem AppendFrom_spec {b : DataBuffer} {pSrc : Bytes} {len : Nat}
    (hsz : b.m_BufferSize < 2 ^ 32) (hlen : len ≤ pSrc.length)
    (hfit : b.m_DataLength + len ≤ b.m_BufferSize) :
    ∃ b', b.AppendFrom pSrc len = .ok b' ∧ b'.data = b.data ++ pSrc.take len ∧
      b'.m_DataLength = b.m_DataLength + len ∧ b'.m_BufferSize = b.m_BufferSize ∧
      b'.m_IsOwnResource = b.m_IsOwnResource := by
  have htake : (pSrc.take len).length = len := List.length_take_of_le hlen
  have hsum : u32 (b.m_DataLength + len) = b.m_DataLength + len := u32_of_lt (by omega)
  have heq : b.AppendFrom pSrc len = .ok { b with
      m_Buffer := b.m_Buffer.write b.m_DataLength (pSrc.take len)
      m_DataLength := b.m_DataLength + len } := by
    unfold AppendFrom copyTo
    rw [Nat.add_comm len, hsum, if_pos hfit, htake, if_pos hfit]
  refine ⟨_, heq, ?_, rfl, rfl, rfl⟩
  have h := Mem.read_write_append b.m_Buffer 0 b.m_DataLength (pSrc.take len)
  rw [Nat.zero_add, htake] at h
  exact h

/-- An owned buffer grows to the bound, or already has it. -/
theorem SetBufferSizeLowerBound_spec (fresh : Nat → Mem UInt8) {b : DataBuffer}
    (hown : b.m_IsOwnResource = true) (newSize : Nat) :
    ∃ b', b.SetBufferSizeLowerBound fresh newSize = .ok b' ∧
      b'.m_BufferSize = max b.m_BufferSize newSize ∧ b'.m_DataLength = b.m_DataLength ∧
      b'.m_IsOwnResource = true := by
  by_cases h : newSize > b.m_BufferSize
  · refine ⟨{ b with m_BufferSize := newSize, m_Buffer := fresh newSize }, ?_, ?_, rfl, hown⟩
    · rw [SetBufferSizeLowerBound, if_pos h, if_pos hown]
    · exact (Nat.max_eq_right (Nat.le_of_lt h)).symm
  · refine ⟨b, ?_, ?_, rfl, hown⟩
    · rw [SetBufferSizeLowerBound, if_neg h]
    · exact (Nat.max_eq_left (Nat.le_of_not_lt h)).symm

end DataBuffer

end TiraRdp
