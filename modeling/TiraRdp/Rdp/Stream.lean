import TiraRdp.Lib.Word

/-!
# `wStream`: a buffer and a cursor

The stream of `Rdp/src/winpr/include/winpr/stream.h` over a buffer that it fills
(`Stream_New(buffer, size)`). The pointer is its offset from the buffer, a 32-bit word: moving it is
arithmetic on addresses, and a sum past the last address wraps.

No macro looks where it reads. `Within` says that the pointer has not left the buffer; there the
remaining length is what it says, and a reader that asks for no more stays inside (`Within.seek`).
-/

namespace TiraRdp

open Lib

/-! ## Errors: a `UINT`, zero for none -/

def CHANNEL_RC_OK : Nat := 0
def CHANNEL_RC_BAD_PROC : Nat := 11
def CHANNEL_RC_NO_MEMORY : Nat := 12
def ERROR_INVALID_DATA : Nat := 0x0D
def ERROR_BAD_LENGTH : Nat := 0x18

/-! ## The stream -/

structure wStream where
  buffer : Bytes
  position : Nat
  deriving Repr, DecidableEq

namespace wStream

/-- `Stream_New(buffer, size)`. -/
def ofBuffer (buffer : Bytes) : wStream := ⟨buffer, 0⟩

def Length (s : wStream) : Nat := s.buffer.length

/-- `length - (pointer - buffer)`, unsigned. -/
def GetRemainingLength (s : wStream) : Nat := subU32 s.Length s.position

def SetPosition (s : wStream) (p : Nat) : wStream := { s with position := u32 p }

def Seek (s : wStream) (offset : Nat) : wStream := s.SetPosition (s.position + offset)

/-- The next `n` bytes. -/
def Pointer (s : wStream) (n : Nat) : Bytes := (s.buffer.drop s.position).take n

/-- `Stream_Read_UINT8`, `_UINT16`, `_UINT32`, `_UINT64`: a number of `width` bytes,
little-endian. -/
def Read (s : wStream) (width : Nat) : Nat × wStream := (ofLe (s.Pointer width), s.Seek width)

/-- Numbers of these widths, one after the other. -/
def ReadAll (s : wStream) : List Nat → List Nat × wStream
  | [] => ([], s)
  | width :: widths =>
    let (value, t) := s.Read width
    let (values, u) := t.ReadAll widths
    (value :: values, u)

/-- The pointer is inside the buffer or at its end. -/
structure Within (s : wStream) : Prop where
  position_le : s.position ≤ s.Length
  length_lt : s.Length < 2 ^ 31

variable {s : wStream}

@[simp] theorem Seek_buffer (s : wStream) (n : Nat) : (s.Seek n).buffer = s.buffer := rfl

@[simp] theorem ReadAll_buffer (s : wStream) (widths : List Nat) :
    (s.ReadAll widths).2.buffer = s.buffer := by
  induction widths generalizing s with
  | nil => rfl
  | cons width widths ih => exact ih (s.Seek width)

theorem pointer_length_le (s : wStream) (n : Nat) : (s.Pointer n).length ≤ s.Length := by
  unfold Pointer Length
  rw [List.length_take, List.length_drop]
  omega

theorem Seek_Seek (s : wStream) (a b : Nat) : (s.Seek a).Seek b = s.Seek (a + b) := by
  simp only [Seek, SetPosition, wStream.mk.injEq, true_and]
  unfold u32
  omega

theorem Within.seek_zero (h : s.Within) : s.Seek 0 = s := by
  have hlt : s.position < 2 ^ 32 := by
    have hle := h.position_le
    have hlength := h.length_lt
    omega
  rw [Seek, SetPosition, Nat.add_zero, u32_of_lt hlt]

theorem Within.remaining (h : s.Within) : s.GetRemainingLength = s.Length - s.position :=
  subU32_of_le (Nat.lt_trans h.length_lt (by decide)) h.position_le

theorem Within.position_seek (h : s.Within) {n : Nat} (hn : n ≤ s.GetRemainingLength) :
    (s.Seek n).position = s.position + n := by
  rw [h.remaining] at hn
  have hle := h.position_le
  have hlength := h.length_lt
  exact u32_of_lt (by omega)

/-- **A reader that asks for no more than there is stays inside.** -/
theorem Within.seek (h : s.Within) {n : Nat} (hn : n ≤ s.GetRemainingLength) :
    (s.Seek n).Within where
  position_le := by
    rw [h.position_seek hn]
    rw [h.remaining] at hn
    have hle := h.position_le
    show s.position + n ≤ s.Length
    omega
  length_lt := h.length_lt

theorem Within.remaining_seek (h : s.Within) {n : Nat} (hn : n ≤ s.GetRemainingLength) :
    (s.Seek n).GetRemainingLength = s.GetRemainingLength - n := by
  rw [(h.seek hn).remaining, h.remaining, h.position_seek hn, Nat.sub_add_eq]
  rfl

/-- The stream after a row of reads is where their widths lead. -/
theorem Within.readAll (h : s.Within) {widths : List Nat} (hn : widths.sum ≤ s.GetRemainingLength) :
    (s.ReadAll widths).2 = s.Seek widths.sum := by
  induction widths generalizing s with
  | nil => exact h.seek_zero.symm
  | cons width widths ih =>
    rw [List.sum_cons] at hn
    have hwidth : width ≤ s.GetRemainingLength := by omega
    have hrest : widths.sum ≤ (s.Seek width).GetRemainingLength := by
      rw [h.remaining_seek hwidth]
      omega
    show ((s.Seek width).ReadAll widths).2 = _
    rw [ih (h.seek hwidth) hrest, Seek_Seek, List.sum_cons]

end wStream

end TiraRdp
