import Mathlib.Logic.Function.Basic
import TiraRdp.Lib.Lts
import TiraRdp.Utility.DataBuffer

/-!
# Operations on owned buffers

Model of what a program does with any number of `DataBuffer<unsigned char>`s that own their blocks
(`common/utility/include/DataBuffer.h`, `buffer.h`), as a system of operations.

* `block` is the size of the block that `m_Buffer` names. `SetBufferSizeLowerBound` sets
  `m_BufferSize` before it allocates, so the two differ where `new` throws.
* A buffer starts as `DataBuffer()`, or as `DataBuffer(buffer, bufferSize)` of a shared pointer to
  `bufferSize` elements. `pSrc` is the list of the `len` elements that the call names; the overloads
  that take another `DataBuffer` are these with its elements.
* An operation that throws leaves what it changed before. A run ends where a `memcpy` leaves its
  block (`outside`).

Results: which steps keep every length within its size and every copy within its block
(`sound_iff_fits`); where no allocation fails every block has the size that its buffer says
(`whole_blocks`); the operations are those of `DataBuffer` there (`AppendFrom_whole`).
-/

namespace TiraRdp

open Lib

namespace DataBuffer

/-- The space is the difference of the numbers. -/
def SpaceRight (b : DataBuffer) : Prop := (b.GetSpaceLeave : Int) = b.m_BufferSize - b.m_DataLength

theorem spaceRight_of_le {b : DataBuffer} (hsize : b.m_BufferSize < 2 ^ 32)
    (h : b.m_DataLength ≤ b.m_BufferSize) : b.SpaceRight := by
  unfold SpaceRight
  rw [GetSpaceLeave_of_le hsize h]
  omega

end DataBuffer

/-- A `DataBuffer` and the size of the block that its pointer names. -/
structure OwnedBuffer where
  buffer : DataBuffer
  block : Nat

namespace OwnedBuffer

/-- `DataBuffer()`. -/
def new : OwnedBuffer := ⟨DataBuffer.new, 0⟩

/-- `DataBuffer(buffer, bufferSize)` of a shared pointer. -/
def ofShared (buffer : Mem UInt8) (bufferSize : Nat) : OwnedBuffer :=
  ⟨⟨buffer, bufferSize, true, bufferSize⟩, bufferSize⟩

/-- `Buffer::SetBufferSizeLowerBound`; `allocates` says whether `new` returns. -/
def SetBufferSizeLowerBound (fresh : Nat → Mem UInt8) (o : OwnedBuffer) (newSize : Nat)
    (allocates : Bool) : OwnedBuffer :=
  if newSize > o.buffer.m_BufferSize then
    if o.buffer.m_IsOwnResource then
      let b := { o.buffer with m_BufferSize := newSize }
      if allocates then ⟨{ b with m_Buffer := fresh newSize }, newSize⟩ else ⟨b, o.block⟩
    else o
  else o

/-- `memcpy` into the block; `none` when it leaves it. A copy of no elements to behind the block
leaves it too. -/
def memcpy (o : OwnedBuffer) (off : Nat) (src : Bytes) : Option DataBuffer :=
  if off + src.length ≤ o.block then some { o.buffer with m_Buffer := o.buffer.m_Buffer.write off src }
  else none

/-- `DataBuffer::AppendFrom`. -/
def AppendFrom (o : OwnedBuffer) (pSrc : Bytes) : Option OwnedBuffer :=
  if u32 (pSrc.length + o.buffer.m_DataLength) ≤ o.buffer.m_BufferSize then
    (o.memcpy o.buffer.m_DataLength pSrc).map fun b =>
      { o with buffer := { b with m_DataLength := u32 (b.m_DataLength + pSrc.length) } }
  else some o

/-- `DataBuffer::CopyFrom`. -/
def CopyFrom (o : OwnedBuffer) (pSrc : Bytes) : Option OwnedBuffer :=
  if pSrc.length ≤ o.buffer.m_BufferSize then
    (o.memcpy 0 pSrc).map fun b => { o with buffer := { b with m_DataLength := pSrc.length } }
  else some o

/-- `DataBuffer::SetDataLength`. -/
def SetDataLength (o : OwnedBuffer) (length : Nat) : OwnedBuffer :=
  if length ≤ o.buffer.m_BufferSize then { o with buffer := { o.buffer with m_DataLength := length } } else o

/-- `DataBuffer::Clear`. -/
def Clear (o : OwnedBuffer) : OwnedBuffer := { o with buffer := o.buffer.Clear }

/-- `Buffer::Swap`, what becomes of the one of the two: it gets the other's block, and its size. -/
def swapped (o other : OwnedBuffer) : OwnedBuffer :=
  if o.buffer.m_IsOwnResource && other.buffer.m_IsOwnResource then
    ⟨{ o.buffer with m_Buffer := other.buffer.m_Buffer, m_BufferSize := other.buffer.m_BufferSize },
      other.block⟩
  else o

/-- Where the block has the size that the buffer says, this is the `DataBuffer` operation. -/
theorem AppendFrom_whole {o : OwnedBuffer} (h : o.block = o.buffer.m_BufferSize) (pSrc : Bytes) :
    o.AppendFrom pSrc = match o.buffer.AppendFrom pSrc pSrc.length with
      | .ok b => some ⟨b, o.block⟩
      | .error .outOfBounds => none
      | .error _ => some o := by
  unfold AppendFrom DataBuffer.AppendFrom DataBuffer.copyTo memcpy
  rw [List.take_length, h]
  split_ifs
  · rfl
  · rfl
  · rfl

theorem SetBufferSizeLowerBound_whole (fresh : Nat → Mem UInt8) {o : OwnedBuffer}
    (h : o.block = o.buffer.m_BufferSize) (newSize : Nat) :
    o.SetBufferSizeLowerBound fresh newSize true =
      match o.buffer.SetBufferSizeLowerBound fresh newSize with
      | .ok b => ⟨b, b.m_BufferSize⟩
      | .error _ => o := by
  unfold SetBufferSizeLowerBound DataBuffer.SetBufferSizeLowerBound
  simp only [if_true]
  split_ifs
  · rfl
  · rfl
  · exact congrArg (OwnedBuffer.mk o.buffer) h

/-- The length is within the size, the block no larger than that. -/
structure Kept (o : OwnedBuffer) : Prop where
  owned : o.buffer.m_IsOwnResource = true
  length_le : o.buffer.m_DataLength ≤ o.buffer.m_BufferSize
  block_le : o.block ≤ o.buffer.m_BufferSize
  size_lt : o.buffer.m_BufferSize < 2 ^ 32

theorem Kept.new : Kept new := ⟨rfl, Nat.le_refl _, Nat.le_refl _, by decide⟩

theorem Kept.ofShared (buffer : Mem UInt8) {bufferSize : Nat} (h : bufferSize < 2 ^ 32) :
    Kept (ofShared buffer bufferSize) := ⟨rfl, Nat.le_refl _, Nat.le_refl _, h⟩

variable {o other : OwnedBuffer} {pSrc : Bytes}

theorem Kept.SetBufferSizeLowerBound (h : o.Kept) (fresh : Nat → Mem UInt8) {newSize : Nat}
    (hnew : newSize < 2 ^ 32) (allocates : Bool) :
    (o.SetBufferSizeLowerBound fresh newSize allocates).Kept := by
  have hlen := h.length_le
  have hblock := h.block_le
  unfold OwnedBuffer.SetBufferSizeLowerBound
  split_ifs with hgrows hown halloc
  · exact ⟨hown, Nat.le_of_lt (Nat.lt_of_le_of_lt hlen hgrows), Nat.le_refl _, hnew⟩
  · exact ⟨hown, Nat.le_of_lt (Nat.lt_of_le_of_lt hlen hgrows),
      Nat.le_of_lt (Nat.lt_of_le_of_lt hblock hgrows), hnew⟩
  · exact h
  · exact h

/-- An append that is accepted fits into the block: the sum has not wrapped, and no allocation
failed. -/
def AppendFits (o : OwnedBuffer) (len : Nat) : Prop :=
  (o.buffer.m_DataLength + len < 2 ^ 32 ∨ o.buffer.m_BufferSize < o.buffer.m_DataLength + len - 2 ^ 32) ∧
    (o.buffer.m_DataLength + len ≤ o.block ∨ o.buffer.m_BufferSize < o.buffer.m_DataLength + len)

theorem Kept.AppendFrom (h : o.Kept) (hlen : pSrc.length < 2 ^ 32)
    (hfits : o.AppendFits pSrc.length) :
    ∃ o', o.AppendFrom pSrc = some o' ∧ o'.Kept := by
  obtain ⟨hwrap, hblock⟩ := hfits
  have hsize := h.size_lt
  have hlength := h.length_le
  unfold OwnedBuffer.AppendFrom memcpy
  split_ifs with hcheck hinside
  · rw [Nat.add_comm] at hcheck
    exact ⟨_, rfl, h.owned, hcheck, h.block_le, hsize⟩
  · unfold u32 at hcheck
    omega
  · exact ⟨o, rfl, h⟩

theorem Kept.AppendFrom_outside (h : o.Kept) (hlen : pSrc.length < 2 ^ 32)
    (hfits : ¬ o.AppendFits pSrc.length) : o.AppendFrom pSrc = none := by
  have hlength := h.length_le
  have hblock := h.block_le
  have hsize := h.size_lt
  unfold AppendFits at hfits
  have hcheck : u32 (pSrc.length + o.buffer.m_DataLength) ≤ o.buffer.m_BufferSize := by
    unfold u32
    omega
  have houtside : ¬ o.buffer.m_DataLength + pSrc.length ≤ o.block := by omega
  unfold OwnedBuffer.AppendFrom memcpy
  rw [if_pos hcheck, if_neg houtside]
  rfl

/-- A copy that is accepted fits into the block: no allocation failed. -/
def CopyFits (o : OwnedBuffer) (len : Nat) : Prop := len ≤ o.block ∨ o.buffer.m_BufferSize < len

theorem Kept.CopyFrom (h : o.Kept) (hfits : o.CopyFits pSrc.length) :
    ∃ o', o.CopyFrom pSrc = some o' ∧ o'.Kept := by
  unfold OwnedBuffer.CopyFrom memcpy
  split_ifs with hcheck hinside
  · exact ⟨_, rfl, h.owned, hcheck, h.block_le, h.size_lt⟩
  · rw [Nat.zero_add] at hinside
    exact absurd hcheck (Nat.not_le.mpr (hfits.resolve_left hinside))
  · exact ⟨o, rfl, h⟩

theorem CopyFrom_outside (hfits : ¬ o.CopyFits pSrc.length) : o.CopyFrom pSrc = none := by
  obtain ⟨hinside, hcheck⟩ := not_or.mp hfits
  unfold OwnedBuffer.CopyFrom memcpy
  rw [if_pos (Nat.not_lt.mp hcheck), Nat.zero_add, if_neg hinside]
  rfl

theorem Kept.SetDataLength (h : o.Kept) (length : Nat) : (o.SetDataLength length).Kept := by
  unfold OwnedBuffer.SetDataLength
  split_ifs with hfits
  · exact ⟨h.owned, hfits, h.block_le, h.size_lt⟩
  · exact h

theorem Kept.Clear (h : o.Kept) : o.Clear.Kept := ⟨h.owned, Nat.zero_le _, h.block_le, h.size_lt⟩

/-- `Swap` exchanges the sizes and not the lengths. -/
theorem Kept.swapped_eq (h : o.Kept) (hother : other.Kept) : o.swapped other =
    ⟨⟨other.buffer.m_Buffer, other.buffer.m_BufferSize, o.buffer.m_IsOwnResource, o.buffer.m_DataLength⟩,
      other.block⟩ := if_pos (Bool.and_eq_true_iff.mpr ⟨h.owned, hother.owned⟩)

theorem Kept.swapped (h : o.Kept) (hother : other.Kept)
    (hfits : o.buffer.m_DataLength ≤ other.buffer.m_BufferSize) : (o.swapped other).Kept := by
  rw [h.swapped_eq hother]
  exact ⟨h.owned, hfits, hother.block_le, hother.size_lt⟩

/-! ### Where no allocation fails -/

/-- The block has the size that the buffer says. -/
def Whole (o : OwnedBuffer) : Prop := o.block = o.buffer.m_BufferSize

theorem Whole.SetBufferSizeLowerBound (h : o.Whole) (fresh : Nat → Mem UInt8) (newSize : Nat) :
    (o.SetBufferSizeLowerBound fresh newSize true).Whole := by
  unfold OwnedBuffer.SetBufferSizeLowerBound
  simp only [if_true]
  split_ifs
  · exact rfl
  · exact h
  · exact h

/-- A copy does not move the block. -/
theorem Whole.memcpy {off : Nat} {src : Bytes} {b : DataBuffer} (h : o.Whole)
    (hcopy : o.memcpy off src = some b) (length : Nat) :
    Whole { o with buffer := { b with m_DataLength := length } } := by
  obtain ⟨-, hcopy⟩ := Option.ite_none_right_eq_some.mp hcopy
  obtain rfl := Option.some.inj hcopy
  exact h

theorem Whole.AppendFrom (h : o.Whole) (hcopy : o.AppendFrom pSrc = some other) : other.Whole := by
  unfold OwnedBuffer.AppendFrom at hcopy
  split_ifs at hcopy
  · obtain ⟨b, hb, rfl⟩ := Option.map_eq_some_iff.mp hcopy
    exact h.memcpy hb _
  · obtain rfl := Option.some.inj hcopy
    exact h

theorem Whole.CopyFrom (h : o.Whole) (hcopy : o.CopyFrom pSrc = some other) : other.Whole := by
  unfold OwnedBuffer.CopyFrom at hcopy
  split_ifs at hcopy
  · obtain ⟨b, hb, rfl⟩ := Option.map_eq_some_iff.mp hcopy
    exact h.memcpy hb _
  · obtain rfl := Option.some.inj hcopy
    exact h

theorem Whole.SetDataLength (h : o.Whole) (length : Nat) : (o.SetDataLength length).Whole := by
  unfold OwnedBuffer.SetDataLength
  split_ifs
  · exact h
  · exact h

theorem Whole.swapped (h : o.Whole) (hother : other.Whole) : (o.swapped other).Whole := by
  unfold OwnedBuffer.swapped
  split_ifs
  · exact hother
  · exact h

end OwnedBuffer

/-! ## Runs -/

/-- The buffers of a program. -/
structure OwnedBuffers where
  buffers : Nat → OwnedBuffer
  /-- A copy has left its block. -/
  outside : Bool

namespace OwnedBuffers

inductive Operation where
  | SetBufferSizeLowerBound (i : Nat) (newSize : UInt32) (allocates : Bool)
  | AppendFrom (i : Nat) (pSrc : Bytes)
  | CopyFrom (i : Nat) (pSrc : Bytes)
  | SetDataLength (i : Nat) (length : UInt32)
  | Clear (i : Nat)
  | Swap (i other : Nat)
  deriving DecidableEq

def set (s : OwnedBuffers) (i : Nat) (o : OwnedBuffer) : OwnedBuffers :=
  { s with buffers := Function.update s.buffers i o }

theorem set_self (s : OwnedBuffers) (i : Nat) (o : OwnedBuffer) : (s.set i o).buffers i = o := by
  unfold set
  exact Function.update_self i o s.buffers

theorem set_of_ne {i j : Nat} (h : i ≠ j) (s : OwnedBuffers) (o : OwnedBuffer) :
    (s.set j o).buffers i = s.buffers i := by
  unfold set
  exact Function.update_of_ne h o s.buffers

/-- A copy, into the block or not. -/
def copied (s : OwnedBuffers) (i : Nat) : Option OwnedBuffer → OwnedBuffers
  | some o => s.set i o
  | none => { s with outside := true }

/-- One operation. A length is an `unsigned int`. -/
def step (fresh : Nat → Mem UInt8) (s : OwnedBuffers) (op : Operation) : Option OwnedBuffers :=
  if s.outside then none
  else match op with
    | .SetBufferSizeLowerBound i newSize allocates =>
      some (s.set i ((s.buffers i).SetBufferSizeLowerBound fresh newSize.toNat allocates))
    | .AppendFrom i pSrc =>
      if pSrc.length < 2 ^ 32 then some (s.copied i ((s.buffers i).AppendFrom pSrc)) else none
    | .CopyFrom i pSrc =>
      if pSrc.length < 2 ^ 32 then some (s.copied i ((s.buffers i).CopyFrom pSrc)) else none
    | .SetDataLength i length => some (s.set i ((s.buffers i).SetDataLength length.toNat))
    | .Clear i => some (s.set i (s.buffers i).Clear)
    | .Swap i other =>
      let swapped := s.set i ((s.buffers i).swapped (s.buffers other))
      some (swapped.set other ((s.buffers other).swapped (s.buffers i)))

/-- The buffers at the start: each without a block, or on a shared pointer. -/
structure Initial (s : OwnedBuffers) : Prop where
  inside : s.outside = false
  buffers : ∀ i, s.buffers i = .new ∨
    ∃ buffer bufferSize, bufferSize < 2 ^ 32 ∧ s.buffers i = .ofShared buffer bufferSize

/-- Every length is within its size, every space is right, and no copy has left its block. -/
structure Sound (s : OwnedBuffers) : Prop where
  length_le : ∀ i, (s.buffers i).buffer.m_DataLength ≤ (s.buffers i).buffer.m_BufferSize
  spaceRight : ∀ i, (s.buffers i).buffer.SpaceRight
  inside : s.outside = false

/-- When an operation keeps that. -/
def Fits (s : OwnedBuffers) : Operation → Prop
  | .AppendFrom i pSrc => (s.buffers i).AppendFits pSrc.length
  | .CopyFrom i pSrc => (s.buffers i).CopyFits pSrc.length
  | .Swap i other =>
    (s.buffers i).buffer.m_DataLength ≤ (s.buffers other).buffer.m_BufferSize ∧
      (s.buffers other).buffer.m_DataLength ≤ (s.buffers i).buffer.m_BufferSize
  | _ => True

/-- The invariant. -/
structure Kept (s : OwnedBuffers) : Prop where
  buffers : ∀ i, (s.buffers i).Kept
  inside : s.outside = false

variable {fresh : Nat → Mem UInt8} {s t : OwnedBuffers} {op : Operation}

theorem Initial.kept (h : s.Initial) : s.Kept := by
  refine ⟨fun i => ?_, h.inside⟩
  rcases h.buffers i with hnew | ⟨buffer, bufferSize, hlt, hshared⟩
  · rw [hnew]
    exact OwnedBuffer.Kept.new
  · rw [hshared]
    exact OwnedBuffer.Kept.ofShared buffer hlt

theorem Kept.sound (h : s.Kept) : s.Sound :=
  ⟨fun i => (h.buffers i).length_le,
    fun i => DataBuffer.spaceRight_of_le (h.buffers i).size_lt (h.buffers i).length_le, h.inside⟩

theorem Kept.set {o : OwnedBuffer} (h : s.Kept) (i : Nat) (ho : o.Kept) : (s.set i o).Kept := by
  refine ⟨?_, h.inside⟩
  exact (Function.forall_update_iff s.buffers fun _ o => o.Kept).mpr ⟨ho, fun j _ => h.buffers j⟩

/-- **A step that fits** keeps the invariant. -/
theorem Kept.step (h : s.Kept) (hfits : s.Fits op) (hstep : step fresh s op = some t) : t.Kept := by
  unfold OwnedBuffers.step at hstep
  rw [h.inside, if_neg Bool.false_ne_true] at hstep
  cases op with
  | SetBufferSizeLowerBound i newSize allocates =>
    obtain rfl := Option.some.inj hstep
    exact h.set i ((h.buffers i).SetBufferSizeLowerBound fresh newSize.toNat_lt allocates)
  | AppendFrom i pSrc =>
    obtain ⟨hlen, hstep⟩ := Option.ite_none_right_eq_some.mp hstep
    obtain ⟨o, hcopy, ho⟩ := (h.buffers i).AppendFrom hlen hfits
    rw [hcopy] at hstep
    obtain rfl := Option.some.inj hstep
    exact h.set i ho
  | CopyFrom i pSrc =>
    obtain ⟨-, hstep⟩ := Option.ite_none_right_eq_some.mp hstep
    obtain ⟨o, hcopy, ho⟩ := (h.buffers i).CopyFrom hfits
    rw [hcopy] at hstep
    obtain rfl := Option.some.inj hstep
    exact h.set i ho
  | SetDataLength i length =>
    obtain rfl := Option.some.inj hstep
    exact h.set i ((h.buffers i).SetDataLength length.toNat)
  | Clear i =>
    obtain rfl := Option.some.inj hstep
    exact h.set i (h.buffers i).Clear
  | Swap i other =>
    obtain rfl := Option.some.inj hstep
    have hfirst := h.set i ((h.buffers i).swapped (h.buffers other) hfits.1)
    exact hfirst.set other ((h.buffers other).swapped (h.buffers i) hfits.2)

/-- **A step that does not fit** ends in a copy outside or a length above its size. -/
theorem Kept.not_sound (h : s.Kept) (hfits : ¬ s.Fits op)
    (hstep : OwnedBuffers.step fresh s op = some t) :
    ¬ t.Sound := by
  intro hsound
  unfold OwnedBuffers.step at hstep
  rw [h.inside, if_neg Bool.false_ne_true] at hstep
  cases op with
  | SetBufferSizeLowerBound i newSize allocates => exact hfits trivial
  | SetDataLength i length => exact hfits trivial
  | Clear i => exact hfits trivial
  | AppendFrom i pSrc =>
    obtain ⟨hlen, hstep⟩ := Option.ite_none_right_eq_some.mp hstep
    rw [(h.buffers i).AppendFrom_outside hlen hfits] at hstep
    obtain rfl := Option.some.inj hstep
    exact absurd hsound.inside Bool.noConfusion
  | CopyFrom i pSrc =>
    obtain ⟨-, hstep⟩ := Option.ite_none_right_eq_some.mp hstep
    rw [OwnedBuffer.CopyFrom_outside hfits] at hstep
    obtain rfl := Option.some.inj hstep
    exact absurd hsound.inside Bool.noConfusion
  | Swap i other =>
    obtain rfl := Option.some.inj hstep
    have hsecond := hsound.length_le other
    have hfirst := hsound.length_le i
    rw [set_self, (h.buffers other).swapped_eq (h.buffers i)] at hsecond
    by_cases hi : i = other
    · subst hi
      exact hfits ⟨hsecond, hsecond⟩
    · rw [set_of_ne hi, set_self, (h.buffers i).swapped_eq (h.buffers other)] at hfirst
      exact hfits ⟨hfirst, hsecond⟩

/-- **The buffers stay sound** in a run exactly when every step fits. -/
theorem sound_iff_fits (fresh : Nat → Mem UInt8) (h : s.Initial) {ops : List Operation}
    (hrun : Lts.run (step fresh) s ops = some t) :
    Lts.Along (step fresh) Sound s ops ↔ Lts.Meets (step fresh) Fits s ops := by
  symm
  refine Lts.meets_iff_along (p := fun _ => True) (fun _ => Kept.sound) ?_ ?_ h.kept (fun _ _ => trivial) hrun
  · exact fun _ _ _ hkept _ hfits hstep => hkept.step hfits hstep
  · exact fun _ _ _ hkept _ hfits hstep => hkept.not_sound hfits hstep

instance (s : OwnedBuffers) : DecidablePred s.Fits
  | .AppendFrom _ _ => inferInstanceAs (Decidable ((_ ∨ _) ∧ (_ ∨ _)))
  | .CopyFrom _ _ => inferInstanceAs (Decidable (_ ∨ _))
  | .Swap _ _ => inferInstanceAs (Decidable (_ ∧ _))
  | .SetBufferSizeLowerBound _ _ _ => .isTrue trivial
  | .SetDataLength _ _ => .isTrue trivial
  | .Clear _ => .isTrue trivial

/-- No buffer has a block yet. -/
def empty : OwnedBuffers := ⟨fun _ => .new, false⟩

theorem initial_empty : empty.Initial := ⟨rfl, fun _ => .inl rfl⟩

/-- Two buffers of one size change their blocks. -/
def swapRun : List Operation :=
  [.SetBufferSizeLowerBound 0 4 true, .AppendFrom 0 [1, 2], .SetBufferSizeLowerBound 1 4 true,
    .SetDataLength 1 3, .Swap 0 1, .AppendFrom 0 [3, 4], .CopyFrom 1 [5, 6, 7, 8]]

theorem sound_iff_fits_swap : Lts.Along (step fun _ _ => 0) Sound empty swapRun := by
  have hrun : (Lts.run (step fun _ _ => 0) empty swapRun).isSome = true := by decide
  obtain ⟨t, ht⟩ := Option.isSome_iff_exists.mp hrun
  exact (sound_iff_fits (fun _ _ => 0) initial_empty ht).mpr (by decide)

/-- `Swap` leaves 8 bytes of data in a buffer of 4. -/
theorem swap_keeps_length :
    ¬ ∀ (fresh : Nat → Mem UInt8) (s t : OwnedBuffers) (ops : List Operation),
    s.Initial → Lts.run (step fresh) s ops = some t → Lts.Along (step fresh) Sound s ops := by
  intro h
  let ops : List Operation := [.SetBufferSizeLowerBound 0 10 true, .SetDataLength 0 8,
    .SetBufferSizeLowerBound 1 4 true, .Swap 0 1]
  obtain ⟨t, ht, hlong⟩ : ∃ t, Lts.run (step fun _ _ => 0) empty ops = some t ∧
      (t.buffers 0).buffer.m_BufferSize < (t.buffers 0).buffer.m_DataLength :=
        Lts.run_of_any (by decide)
  have hsound := (h _ empty t ops initial_empty ht).last ht
  exact Nat.not_le.mpr hlong (hsound.length_le 0)

/-- A failed allocation leaves a size without a block. -/
example : (Lts.run (step fun _ _ => 0) empty [.SetBufferSizeLowerBound 0 4294967295 false,
    .CopyFrom 0 [1]]).any (·.outside) = true := by decide

/-! ## Where no allocation fails -/

/-- The operation is not a failed allocation. -/
def Operation.Allocates : Operation → Prop
  | .SetBufferSizeLowerBound _ _ allocates => allocates = true
  | _ => True

/-- Every block has the size that its buffer says. -/
def Whole (s : OwnedBuffers) : Prop := ∀ i, (s.buffers i).Whole

theorem Whole.set {o : OwnedBuffer} (h : s.Whole) (i : Nat) (ho : o.Whole) : (s.set i o).Whole :=
  (Function.forall_update_iff s.buffers fun _ o => o.Whole).mpr ⟨ho, fun j _ => h j⟩

theorem Whole.step (h : s.Whole) (hop : op.Allocates)
    (hstep : OwnedBuffers.step fresh s op = some t) :
    t.Whole := by
  unfold OwnedBuffers.step at hstep
  obtain ⟨-, hstep⟩ := Option.ite_none_left_eq_some.mp hstep
  cases op with
  | SetBufferSizeLowerBound i newSize allocates =>
    obtain rfl := Option.some.inj hstep
    have hallocates : allocates = true := hop
    rw [hallocates]
    exact h.set i ((h i).SetBufferSizeLowerBound fresh newSize.toNat)
  | AppendFrom i pSrc =>
    obtain ⟨-, hstep⟩ := Option.ite_none_right_eq_some.mp hstep
    obtain rfl := Option.some.inj hstep
    cases hcopy : (s.buffers i).AppendFrom pSrc with
    | none => exact h
    | some o => exact h.set i ((h i).AppendFrom hcopy)
  | CopyFrom i pSrc =>
    obtain ⟨-, hstep⟩ := Option.ite_none_right_eq_some.mp hstep
    obtain rfl := Option.some.inj hstep
    cases hcopy : (s.buffers i).CopyFrom pSrc with
    | none => exact h
    | some o => exact h.set i ((h i).CopyFrom hcopy)
  | SetDataLength i length =>
    obtain rfl := Option.some.inj hstep
    exact h.set i ((h i).SetDataLength length.toNat)
  | Clear i =>
    obtain rfl := Option.some.inj hstep
    exact h.set i (o := (s.buffers i).Clear) (h i)
  | Swap i other =>
    obtain rfl := Option.some.inj hstep
    exact (h.set i ((h i).swapped (h other))).set other ((h other).swapped (h i))

/-- **No block is smaller** than its buffer says in a run without failed allocations. -/
theorem whole_blocks (fresh : Nat → Mem UInt8) (h : s.Initial) {ops : List Operation}
    (hops : ∀ op ∈ ops, op.Allocates) : Lts.Along (step fresh) Whole s ops := by
  refine Lts.along_of_invariant (I := Whole) (fun _ hwhole => hwhole) ?_ ?_ hops
  · exact fun _ _ _ hwhole hop hstep => hwhole.step hop hstep
  · intro i
    rcases h.buffers i with hnew | ⟨buffer, bufferSize, -, hshared⟩
    · rw [hnew]
      rfl
    · rw [hshared]
      rfl

end OwnedBuffers

end TiraRdp
