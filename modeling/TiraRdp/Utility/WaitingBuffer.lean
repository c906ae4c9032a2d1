import TiraRdp.Lib.Ring
import TiraRdp.Lib.Word

/-!
# `WaitingBuffer`: the ring under its mutex

Model of `common/utility/include/WaitingBuffer.h`: the fields `m_BufMtx` guards and the code that
runs while it is held, `WriteInternal` and `ReadInternal` (`:152-198`) and the setting of the
cancel flags (`:126-144`). Elements are bytes, as in its one instantiation: the `memcpy`s count
bytes. Indices are 32-bit words and their sums wrap.

The block is a `Mem`, so a `memcpy` past the end is a write to cells that are not the ring's; the
ghost field `stray` records that one happened.

Results, for a ring in order (`InOrder`): while the index sum of a copy stays below `2 ^ 32` the
operation appends to, or takes from, the `content` (`WriteInternal_spec`, `ReadInternal_spec`);
when the sum wraps the ring is not in order afterwards (`WriteInternal_wraps`,
`ReadInternal_wraps`). In a ring of at most `2 ^ 31` cells no sum wraps (`no_wrap_of_small`).
-/

namespace TiraRdp

open Lib Lib.Mem

structure WaitingBuffer where
  m_Buffer : Mem UInt8
  m_Start : Nat
  m_End : Nat
  m_Size : Nat
  m_DataLen : Nat
  m_IsCancelRead : Bool
  m_IsCancelWait : Bool
  m_IsCancelWrite : Bool
  stray : Bool

namespace WaitingBuffer

/-- The constructor; `fresh` is what `new` finds in the block. -/
def new (fresh : Mem UInt8) (size : Nat) : WaitingBuffer :=
  ⟨fresh, 0, 0, size, 0, false, false, false, false⟩

/-- `memcpy(m_Buffer.get() + off, src, src.length)`. -/
def memcpyIn (w : WaitingBuffer) (off : Nat) (src : Bytes) : WaitingBuffer :=
  { w with
    m_Buffer := w.m_Buffer.write off src
    stray := w.stray || decide (w.m_Size < off + src.length) }

/-- `memcpy(…, m_Buffer.get() + off, len)`. -/
def memcpyOut (w : WaitingBuffer) (off len : Nat) : Bytes × WaitingBuffer :=
  (w.m_Buffer.read off len, { w with stray := w.stray || decide (w.m_Size < off + len) })

/-- How much `WriteInternal` will store: `MIN(m_Size - m_DataLen, len)`. -/
def writeLen (w : WaitingBuffer) (len : Nat) : Nat := min (subU32 w.m_Size w.m_DataLen) len

/-- How much `ReadInternal` will take: `MIN(m_DataLen, len)`. -/
def readLen (w : WaitingBuffer) (len : Nat) : Nat := min w.m_DataLen len

/-- The copies of `WriteInternal`: one, or two when the data would run past the block. -/
def putIn (w : WaitingBuffer) (buffer : Bytes) (writeLen : Nat) : WaitingBuffer :=
  if u32 (w.m_End + writeLen) ≤ w.m_Size then w.memcpyIn w.m_End (buffer.take writeLen)
  else
    let rightLen := subU32 w.m_Size w.m_End
    let leftLen := subU32 writeLen rightLen
    (w.memcpyIn w.m_End (buffer.take rightLen)).memcpyIn 0 ((buffer.drop rightLen).take leftLen)

/-- `WriteInternal` (`:152-173`). -/
def WriteInternal (w : WaitingBuffer) (buffer : Bytes) (len : Nat) : Nat × WaitingBuffer :=
  (w.writeLen len, { w.putIn buffer (w.writeLen len) with
    m_End := u32 (w.m_End + w.writeLen len) % w.m_Size
    m_DataLen := u32 (w.m_DataLen + w.writeLen len) })

/-- The copies of `ReadInternal`, and what they put into the caller's buffer. -/
def takeOut (w : WaitingBuffer) (readLen : Nat) : Bytes × WaitingBuffer :=
  if u32 (w.m_Start + readLen) ≤ w.m_Size then w.memcpyOut w.m_Start readLen
  else
    let rightLen := subU32 w.m_Size w.m_Start
    let leftLen := subU32 readLen rightLen
    let right := w.memcpyOut w.m_Start rightLen
    let left := right.2.memcpyOut 0 leftLen
    (right.1 ++ left.1, left.2)

/-- `ReadInternal` (`:175-198`): the bytes put into the caller's buffer, and their count. -/
def ReadInternal (w : WaitingBuffer) (len : Nat) : Bytes × Nat × WaitingBuffer :=
  ((w.takeOut (w.readLen len)).1, w.readLen len, { (w.takeOut (w.readLen len)).2 with
    m_Start := u32 (w.m_Start + w.readLen len) % w.m_Size
    m_DataLen := subU32 w.m_DataLen (w.readLen len) })

/-- `CancelRead`, up to its notification. -/
def CancelRead (w : WaitingBuffer) : WaitingBuffer := { w with m_IsCancelRead := true }

/-- `CancelWrite`, up to its notification. -/
def CancelWrite (w : WaitingBuffer) : WaitingBuffer := { w with m_IsCancelWrite := true }

/-- `CancelWait`, up to its notification. -/
def CancelWait (w : WaitingBuffer) : WaitingBuffer := { w with m_IsCancelWait := true }

/-- What the ring holds, read from `m_Start`. -/
def content (w : WaitingBuffer) : Bytes := ringRead w.m_Buffer w.m_Size w.m_Start w.m_DataLen

/-- The indices agree with each other and with the block. -/
structure Indexed (w : WaitingBuffer) : Prop where
  dataLen_le : w.m_DataLen ≤ w.m_Size
  start_lt : w.m_Start < w.m_Size
  end_lt : w.m_End < w.m_Size
  end_eq : w.m_End = (w.m_Start + w.m_DataLen) % w.m_Size

/-- A ring in order: its size is a word, its indices agree, and no copy left the block. -/
structure InOrder (w : WaitingBuffer) : Prop where
  size_lt : w.m_Size < 2 ^ 32
  indexed : w.Indexed
  inBlock : w.stray = false

theorem new_inOrder {fresh : Mem UInt8} {size : Nat} (h0 : 0 < size) (h : size < 2 ^ 32) :
    (new fresh size).InOrder :=
  ⟨h, ⟨Nat.zero_le _, h0, h0, (Nat.zero_mod _).symm⟩, rfl⟩

variable {w : WaitingBuffer}

/-- The order of a ring does not depend on its cancel flags. -/
theorem InOrder.setFlags (h : w.InOrder) (cancelRead cancelWait cancelWrite : Bool) :
    InOrder { w with
      m_IsCancelRead := cancelRead, m_IsCancelWait := cancelWait,
      m_IsCancelWrite := cancelWrite } :=
  ⟨h.size_lt, ⟨h.indexed.dataLen_le, h.indexed.start_lt, h.indexed.end_lt, h.indexed.end_eq⟩,
    h.inBlock⟩

/-- What reads and writes leave alone: the size and the flags. -/
structure Frame (w w' : WaitingBuffer) : Prop where
  size : w'.m_Size = w.m_Size
  cancelRead : w'.m_IsCancelRead = w.m_IsCancelRead
  cancelWait : w'.m_IsCancelWait = w.m_IsCancelWait
  cancelWrite : w'.m_IsCancelWrite = w.m_IsCancelWrite

theorem WriteInternal_frame (w : WaitingBuffer) (buffer : Bytes) (len : Nat) :
    Frame w (w.WriteInternal buffer len).2 := by
  unfold WriteInternal putIn
  split <;> exact ⟨rfl, rfl, rfl, rfl⟩

theorem ReadInternal_frame (w : WaitingBuffer) (len : Nat) :
    Frame w (w.ReadInternal len).2.2 := by
  unfold ReadInternal takeOut
  split <;> exact ⟨rfl, rfl, rfl, rfl⟩

theorem InOrder.writeLen_eq (h : w.InOrder) (len : Nat) :
    w.writeLen len = min (w.m_Size - w.m_DataLen) len := by
  unfold writeLen
  rw [subU32_of_le h.size_lt h.indexed.dataLen_le]

/-- Room is left exactly when the code's subtraction says so. -/
theorem InOrder.room_iff (h : w.InOrder) :
    0 < subU32 w.m_Size w.m_DataLen ↔ w.m_DataLen < w.m_Size := by
  rw [subU32_of_le h.size_lt h.indexed.dataLen_le]
  omega

theorem memcpyIn_inBlock (hin : w.stray = false) {off : Nat} {src : Bytes}
    (h : off + src.length ≤ w.m_Size) :
    w.memcpyIn off src = { w with m_Buffer := w.m_Buffer.write off src } := by
  unfold memcpyIn
  rw [hin, decide_eq_false (Nat.not_lt.mpr h), Bool.or_false]

theorem memcpyOut_inBlock {off len : Nat} (h : off + len ≤ w.m_Size) :
    w.memcpyOut off len = (w.m_Buffer.read off len, w) := by
  unfold memcpyOut
  rw [decide_eq_false (Nat.not_lt.mpr h), Bool.or_false]

/-! ## Writing -/

/-- The copies of a write whose index sum does not wrap go round the block. -/
theorem putIn_eq (h : w.InOrder) {buffer : Bytes} {n : Nat} (hn : n ≤ buffer.length)
    (hfit : n ≤ w.m_Size) (hsum : w.m_End + n < 2 ^ 32) :
    w.putIn buffer n =
      { w with m_Buffer := ringWrite w.m_Buffer w.m_Size w.m_End (buffer.take n) } := by
  have htake : (buffer.take n).length = n := List.length_take_of_le hn
  have hend := h.indexed.end_lt
  unfold putIn ringWrite
  rw [u32_of_lt hsum, htake]
  by_cases hone : w.m_End + n ≤ w.m_Size
  · rw [if_pos hone, if_pos hone, memcpyIn_inBlock h.inBlock (by omega)]
  · have hright : subU32 w.m_Size w.m_End = w.m_Size - w.m_End :=
      subU32_of_le h.size_lt (Nat.le_of_lt hend)
    have hleft : subU32 n (w.m_Size - w.m_End) = n - (w.m_Size - w.m_End) :=
      subU32_of_le (by omega) (by omega)
    have hr : (buffer.take (w.m_Size - w.m_End)).length = w.m_Size - w.m_End :=
      List.length_take_of_le (by omega)
    have hl : ((buffer.drop (w.m_Size - w.m_End)).take (n - (w.m_Size - w.m_End))).length =
        n - (w.m_Size - w.m_End) := List.length_take_of_le (by rw [List.length_drop]; omega)
    let w₁ := { w with m_Buffer := w.m_Buffer.write w.m_End (buffer.take (w.m_Size - w.m_End)) }
    have hfirst : w.memcpyIn w.m_End (buffer.take (w.m_Size - w.m_End)) = w₁ :=
      memcpyIn_inBlock h.inBlock (by omega)
    have hsecond : ∀ xs : Bytes, xs.length = n - (w.m_Size - w.m_End) →
        w₁.memcpyIn 0 xs = { w₁ with m_Buffer := w₁.m_Buffer.write 0 xs } := by
      intro xs hxs
      have hfit' : 0 + xs.length ≤ w.m_Size := by omega
      exact memcpyIn_inBlock (w := w₁) h.inBlock hfit'
    rw [if_neg hone, if_neg hone]
    simp only [hright, hleft]
    rw [hfirst, hsecond _ hl, List.take_take, Nat.min_eq_left (by omega), List.drop_take]

/-- **A write whose index sum does not wrap** stores as many of the bytes as there is room for
behind the content, and leaves the ring in order. -/
theorem WriteInternal_spec (h : w.InOrder) {buffer : Bytes}
    (hsum : w.m_End + w.writeLen buffer.length < 2 ^ 32) :
    ∃ w', w.WriteInternal buffer buffer.length = (w.writeLen buffer.length, w') ∧ w'.InOrder ∧
      Frame w w' ∧ w'.content = w.content ++ buffer.take (w.writeLen buffer.length) := by
  have hlen := h.writeLen_eq buffer.length
  generalize hn : w.writeLen buffer.length = n at hlen hsum
  obtain ⟨hdl, hst, hend, heq⟩ := h.indexed
  have hsz := h.size_lt
  have hnb : n ≤ buffer.length := by omega
  have htake : (buffer.take n).length = n := List.length_take_of_le hnb
  have hdata : u32 (w.m_DataLen + n) = w.m_DataLen + n := u32_of_lt (by omega)
  refine ⟨_, by rw [WriteInternal, hn, putIn_eq h hnb (by omega) hsum, u32_of_lt hsum, hdata], ?_,
    ?_, ?_⟩
  · refine ⟨hsz, ⟨?_, hst, Nat.mod_lt _ (by omega), ?_⟩, h.inBlock⟩
    · show w.m_DataLen + n ≤ w.m_Size
      omega
    · show (w.m_End + n) % w.m_Size = (w.m_Start + (w.m_DataLen + n)) % w.m_Size
      rw [heq, Nat.mod_add_mod, Nat.add_assoc]
  · exact ⟨rfl, rfl, rfl, rfl⟩
  · have happ : ringRead (ringWrite w.m_Buffer w.m_Size w.m_End (buffer.take n)) w.m_Size w.m_Start
        (w.m_DataLen + (buffer.take n).length) = w.content ++ buffer.take n :=
      ringRead_ringWrite_append (by omega) heq (by omega)
    rw [htake] at happ
    exact happ

/-- Two indices a wrap of 32 bits apart are different cells of a ring that can reach the wrap. -/
theorem mod_wrapped_ne {size x : Nat} (hx : 2 ^ 32 ≤ x) (hx2 : x < 2 * size) (hs : size < 2 ^ 32) :
    (x - 2 ^ 32) % size ≠ x % size := by
  have h1 : x % size = x - size := by
    rw [Nat.mod_eq_sub_mod (by omega), Nat.mod_eq_of_lt (by omega)]
  rw [h1, Nat.mod_eq_of_lt (by omega)]
  omega

@[simp] theorem putIn_m_Size (w : WaitingBuffer) (buffer : Bytes) (n : Nat) :
    (w.putIn buffer n).m_Size = w.m_Size := by
  unfold putIn
  split <;> rfl

@[simp] theorem putIn_m_Start (w : WaitingBuffer) (buffer : Bytes) (n : Nat) :
    (w.putIn buffer n).m_Start = w.m_Start := by
  unfold putIn
  split <;> rfl

/-- **A write whose index sum wraps** leaves `m_End` behind. -/
theorem WriteInternal_wraps (h : w.InOrder) {buffer : Bytes} {len : Nat}
    (hsum : 2 ^ 32 ≤ w.m_End + w.writeLen len) : ¬ (w.WriteInternal buffer len).2.Indexed := by
  intro hbad
  have hlen := h.writeLen_eq len
  obtain ⟨hdl, hst, hend, heq⟩ := h.indexed
  have hsz := h.size_lt
  have hdata : u32 (w.m_DataLen + w.writeLen len) = w.m_DataLen + w.writeLen len :=
    u32_of_lt (by omega)
  have hwrap : u32 (w.m_End + w.writeLen len) = w.m_End + w.writeLen len - 2 ^ 32 := by
    unfold u32
    omega
  have hidx : (w.m_End + w.writeLen len - 2 ^ 32) % w.m_Size =
      (w.m_Start + (w.m_DataLen + w.writeLen len)) % w.m_Size := by
    have he := hbad.end_eq
    simpa only [WriteInternal, putIn_m_Size, putIn_m_Start, hwrap, hdata] using he
  rw [← Nat.add_assoc, ← Nat.mod_add_mod, ← heq] at hidx
  exact mod_wrapped_ne hsum (by omega) hsz hidx

/-! ## Reading -/

/-- The copies of a read whose index sum does not wrap go round the block. -/
theorem takeOut_eq (h : w.InOrder) {n : Nat} (hn : n ≤ w.m_DataLen)
    (hsum : w.m_Start + n < 2 ^ 32) :
    w.takeOut n = (ringRead w.m_Buffer w.m_Size w.m_Start n, w) := by
  obtain ⟨hdl, hst, hend, heq⟩ := h.indexed
  have hin := h.inBlock
  unfold takeOut
  rw [u32_of_lt hsum]
  by_cases hone : w.m_Start + n ≤ w.m_Size
  · rw [if_pos hone, memcpyOut_inBlock hone, ringRead_of_le hone]
  · have hright : subU32 w.m_Size w.m_Start = w.m_Size - w.m_Start :=
      subU32_of_le h.size_lt (Nat.le_of_lt hst)
    have hleft : subU32 n (w.m_Size - w.m_Start) = n - (w.m_Size - w.m_Start) :=
      subU32_of_le (by omega) (by omega)
    rw [if_neg hone, ringRead_split hst (by omega) (by omega)]
    simp only [hright, hleft]
    rw [memcpyOut_inBlock (by omega)]
    simp only
    rw [memcpyOut_inBlock (by omega)]

theorem readLen_add (w : WaitingBuffer) (len : Nat) :
    w.readLen len + (w.m_DataLen - w.readLen len) = w.m_DataLen :=
  Nat.add_sub_of_le (Nat.min_le_left _ _)

/-- **A read whose index sum does not wrap** takes its bytes from the front of the content, and
leaves the ring in order. -/
theorem ReadInternal_spec (h : w.InOrder) {len : Nat} (hsum : w.m_Start + w.readLen len < 2 ^ 32) :
    ∃ out w', w.ReadInternal len = (out, w.readLen len, w') ∧ w'.InOrder ∧ Frame w w' ∧
      out.length = w.readLen len ∧ w.content = out ++ w'.content := by
  have hsplit := w.readLen_add len
  generalize hn : w.readLen len = n at hsplit hsum
  obtain ⟨hdl, hst, hend, heq⟩ := h.indexed
  have hsz := h.size_lt
  have hdata : subU32 w.m_DataLen n = w.m_DataLen - n := subU32_of_le (by omega) (by omega)
  refine ⟨_, _, by rw [ReadInternal, hn, takeOut_eq h (by omega) hsum, u32_of_lt hsum, hdata],
    ?_, ?_, ringRead_length _ _ _ _, ?_⟩
  · refine ⟨hsz, ⟨?_, Nat.mod_lt _ (by omega), hend, ?_⟩, h.inBlock⟩
    · show w.m_DataLen - n ≤ w.m_Size
      omega
    · show w.m_End = ((w.m_Start + n) % w.m_Size + (w.m_DataLen - n)) % w.m_Size
      rw [Nat.mod_add_mod, Nat.add_assoc, hsplit, heq]
  · exact ⟨rfl, rfl, rfl, rfl⟩
  · unfold content
    conv_lhs => rw [← hsplit]
    exact ringRead_add _ _ _ _ _

@[simp] theorem takeOut_m_Size (w : WaitingBuffer) (n : Nat) :
    (w.takeOut n).2.m_Size = w.m_Size := by
  unfold takeOut
  split <;> rfl

@[simp] theorem takeOut_m_End (w : WaitingBuffer) (n : Nat) : (w.takeOut n).2.m_End = w.m_End := by
  unfold takeOut
  split <;> rfl

/-- **A read whose index sum wraps** leaves `m_Start` behind. -/
theorem ReadInternal_wraps (h : w.InOrder) {len : Nat}
    (hsum : 2 ^ 32 ≤ w.m_Start + w.readLen len) : ¬ (w.ReadInternal len).2.2.Indexed := by
  intro hbad
  have hsplit := w.readLen_add len
  generalize hn : w.readLen len = n at hsplit hsum
  obtain ⟨hdl, hst, hend, heq⟩ := h.indexed
  have hsz := h.size_lt
  have hdata : subU32 w.m_DataLen n = w.m_DataLen - n := subU32_of_le (by omega) (by omega)
  have hwrap : u32 (w.m_Start + n) = w.m_Start + n - 2 ^ 32 := by
    unfold u32
    omega
  have hidx : w.m_End =
      ((w.m_Start + n - 2 ^ 32) % w.m_Size + (w.m_DataLen - n)) % w.m_Size := by
    have he := hbad.end_eq
    simpa only [ReadInternal, hn, takeOut_m_Size, takeOut_m_End, hwrap, hdata] using he
  have hsum' : w.m_Start + n - 2 ^ 32 + (w.m_DataLen - n) = w.m_Start + w.m_DataLen - 2 ^ 32 := by
    omega
  rw [Nat.mod_add_mod, hsum', heq] at hidx
  exact mod_wrapped_ne (by omega) (by omega) hsz hidx.symm

/-! ## Rings in which no sum wraps -/

/-- In a ring of at most `2 ^ 31` cells no index sum reaches the wrap. -/
theorem no_wrap_of_small (h : w.InOrder) (hsmall : w.m_Size ≤ 2 ^ 31) (len : Nat) :
    w.m_End + w.writeLen len < 2 ^ 32 ∧ w.m_Start + w.readLen len < 2 ^ 32 := by
  obtain ⟨hdl, hst, hend, -⟩ := h.indexed
  have hwrite := h.writeLen_eq len
  have hread : w.readLen len ≤ w.m_DataLen := Nat.min_le_left _ _
  constructor <;> omega

end WaitingBuffer

end TiraRdp
