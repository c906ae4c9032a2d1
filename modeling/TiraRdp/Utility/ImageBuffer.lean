import TiraRdp.Lib.Blit
import TiraRdp.Utility.DataBuffer
import TiraRdp.Utility.ImageProcess.RgbToYuv

/-!
# `Ti_Image`

Model of `ImageDesc` (`common/utility/include/imagedefs.h`) and of `Ti_Image`
(`common/utility/private/common/imagebuffer.cpp`, the branches for Windows). An `unsigned int` and a
`long` are 32-bit words; a pointer is an offset into the block it points into. What `pData` points
to is a `Block` with a size, and a `memcpy` that leaves it or the buffer is `Fault.outOfBounds`.

A buffer holds less than its image where `Setup` multiplies stride and height to 2^32 or more.

Results: what a `memcpy` leaves (`memcpy_spec`), and that `Setup` leaves an image that is `SetUp`.
-/

namespace TiraRdp

open Lib Lib.Loop Lib.Simd

inductive TI_PIXEL_FORMAT where
  | TI_FORMAT_UNKNOWN
  | TI_FORMAT_RGB_24
  | TI_FORMAT_B8G8R8A8_UNORM
  | TI_FORMAT_U8Y8V8Y8
  | TI_FORMAT_Y8U8Y8V8
  | TI_FORMAT_I444
  | TI_FORMAT_IYUV
  | TI_FORMAT_NV12
  deriving Repr, DecidableEq

structure ImageDesc where
  m_Width : BitVec 32
  m_Height : BitVec 32
  m_Stride : BitVec 32
  m_BottomUp : Bool
  m_PixelFormat : TI_PIXEL_FORMAT
  deriving Repr, DecidableEq

namespace ImageDesc

def bpp : TI_PIXEL_FORMAT → BitVec 32
  | .TI_FORMAT_RGB_24 => 24
  | .TI_FORMAT_B8G8R8A8_UNORM => 32
  | .TI_FORMAT_U8Y8V8Y8 => 16
  | .TI_FORMAT_Y8U8Y8V8 => 16
  | .TI_FORMAT_I444 => 24
  | .TI_FORMAT_UNKNOWN => 0
  | .TI_FORMAT_IYUV => 0
  | .TI_FORMAT_NV12 => 0

def GetBytesPerPixel (format : TI_PIXEL_FORMAT) : BitVec 32 := bpp format >>> 3

def GetStride (format : TI_PIXEL_FORMAT) (width : BitVec 32) : BitVec 32 :=
  (((GetBytesPerPixel format * width) + 3) >>> 2) <<< 2

end ImageDesc

/-- A rectangle of `long`s. -/
structure RECT where
  left : BitVec 32
  top : BitVec 32
  right : BitVec 32
  bottom : BitVec 32
  deriving Repr, DecidableEq

/-- What a pointer to data points to. -/
structure Block where
  bytes : Mem UInt8
  size : Nat

structure Ti_Image where
  m_ImageDesc : ImageDesc
  m_InternalBuffer : DataBuffer

/-- `memcpy` from the data to the buffer. -/
def DataBuffer.memcpy (b : DataBuffer) (pDst : Nat) (pData : Block) (pSrc len : Nat) :
    Except Fault DataBuffer :=
  if len = 0 then .ok b
  else if pSrc + len ≤ pData.size then b.copyTo pDst (pData.bytes.read pSrc len)
  else .error .outOfBounds

namespace Ti_Image

/-- `Setup` for a description. -/
def Setup (fresh : Nat → Mem UInt8) (image : Ti_Image) (desc : ImageDesc) : Except Fault Ti_Image :=
  let newBufferSize :=
    if desc.m_PixelFormat = .TI_FORMAT_IYUV ∨ desc.m_PixelFormat = .TI_FORMAT_NV12 then
      desc.m_Width * desc.m_Height * 3 / 2
    else desc.m_Stride * desc.m_Height
  match image.m_InternalBuffer.SetBufferSizeLowerBound fresh newBufferSize.toNat with
  | .error e => .error e
  | .ok buffer => .ok ⟨desc, buffer⟩

/-- `Setup` for a width, a height and a format. -/
def SetupOf (fresh : Nat → Mem UInt8) (image : Ti_Image) (width height : BitVec 32)
    (pf : TI_PIXEL_FORMAT) : Except Fault Ti_Image :=
  image.Setup fresh ⟨width, height, ImageDesc.GetStride pf width, true, pf⟩

section CopyFrom

variable (fuel : Nat) (mmx : Mmx) (image : Ti_Image) (pData : Block) (srcDesc : ImageDesc)
  (pSrcRect : RECT)

/-- The bounds check. -/
def inBounds : Prop :=
  0 ≤ pSrcRect.left ∧ 0 ≤ pSrcRect.top
    ∧ pSrcRect.right ≤ srcDesc.m_Width ∧ pSrcRect.bottom ≤ srcDesc.m_Height
    ∧ pSrcRect.right ≤ image.m_ImageDesc.m_Width ∧ pSrcRect.bottom ≤ image.m_ImageDesc.m_Height

/-- The condition of the full frame copies. -/
def fullFrame : Prop :=
  pSrcRect.top = 0 ∧ pSrcRect.left = 0
    ∧ pSrcRect.right = image.m_ImageDesc.m_Width ∧ pSrcRect.bottom = image.m_ImageDesc.m_Height
    ∧ pSrcRect.right = srcDesc.m_Width ∧ pSrcRect.bottom = srcDesc.m_Height
    ∧ srcDesc.m_Stride = image.m_ImageDesc.m_Stride

/-- The condition of the copy of whole planes. -/
def fullWidth : Prop :=
  pSrcRect.top = 0 ∧ pSrcRect.left = 0
    ∧ pSrcRect.right = image.m_ImageDesc.m_Width ∧ ¬ pSrcRect.bottom > image.m_ImageDesc.m_Height
    ∧ pSrcRect.right = srcDesc.m_Width ∧ pSrcRect.bottom = srcDesc.m_Height
    ∧ srcDesc.m_Stride = image.m_ImageDesc.m_Stride

instance : Decidable (inBounds image srcDesc pSrcRect) := inferInstanceAs (Decidable (_ ∧ _))

instance : Decidable (fullFrame image srcDesc pSrcRect) := inferInstanceAs (Decidable (_ ∧ _))

instance : Decidable (fullWidth image srcDesc pSrcRect) := inferInstanceAs (Decidable (_ ∧ _))

/-- `for (int i = top; i < bottom; i++)`. -/
def rowCount : Nat := (pSrcRect.bottom.toInt - pSrcRect.top.toInt).toNat

/-! ### Planar -/

structure PlanarRow where
  pDstY : Nat
  pSrcY : Nat
  pDstU : Nat
  pSrcU : Nat
  pDstV : Nat
  pSrcV : Nat
  buffer : DataBuffer

/-- The pointers to the rectangle in the three planes. -/
def planarStart : PlanarRow :=
  let pSrcY := (pSrcRect.left + pSrcRect.top * srcDesc.m_Width).toNat
  let pSrcU := pSrcY + (srcDesc.m_Width * srcDesc.m_Height).toNat
  let pSrcV := pSrcU + (srcDesc.m_Width * srcDesc.m_Height).toNat
  let pDstY := (pSrcRect.top * image.m_ImageDesc.m_Width + pSrcRect.left).toNat
  let pDstU := pDstY + (image.m_ImageDesc.m_Width * image.m_ImageDesc.m_Height).toNat
  let pDstV := pDstU + (image.m_ImageDesc.m_Width * image.m_ImageDesc.m_Height).toNat
  ⟨pDstY, pSrcY, pDstU, pSrcU, pDstV, pSrcV, image.m_InternalBuffer⟩

/-- The same number of bytes in each plane. -/
def copyPlanes (len : Nat) (s : PlanarRow) : Except Fault PlanarRow := do
  let buffer ← s.buffer.memcpy s.pDstY pData s.pSrcY len
  let buffer ← buffer.memcpy s.pDstU pData s.pSrcU len
  let buffer ← buffer.memcpy s.pDstV pData s.pSrcV len
  return { s with buffer }

/-- A row of each plane. -/
def planarRow (s : PlanarRow) : Except Fault PlanarRow := do
  let s ← copyPlanes pData (pSrcRect.right - pSrcRect.left).toNat s
  return { s with
    pDstY := s.pDstY + image.m_ImageDesc.m_Width.toNat
    pSrcY := s.pSrcY + srcDesc.m_Width.toNat
    pDstU := s.pDstU + image.m_ImageDesc.m_Width.toNat
    pSrcU := s.pSrcU + srcDesc.m_Width.toNat
    pDstV := s.pDstV + image.m_ImageDesc.m_Width.toNat
    pSrcV := s.pSrcV + srcDesc.m_Width.toNat }

/-- The three ways to copy planes, in the order the code tries them. -/
inductive PlanarPath where
  | fullFrame
  | fullWidth
  | rows
  deriving Repr, DecidableEq

def PlanarPath.Applies : PlanarPath → Prop
  | .fullFrame => Ti_Image.fullFrame image srcDesc pSrcRect
  | .fullWidth => Ti_Image.fullWidth image srcDesc pSrcRect
  | .rows => True

def PlanarPath.copy (path : PlanarPath) : Except Fault DataBuffer :=
  let start := planarStart image srcDesc pSrcRect
  match path with
  | .fullFrame =>
    image.m_InternalBuffer.memcpy start.pDstY pData start.pSrcY
      (image.m_ImageDesc.m_Stride * image.m_ImageDesc.m_Height).toNat
  | .fullWidth => (copyPlanes pData (pSrcRect.right * pSrcRect.bottom).toNat start).map (·.buffer)
  | .rows =>
    (upTo (fun _ s => s >>= planarRow image pData srcDesc pSrcRect) (rowCount pSrcRect) (.ok start)).map
      (·.buffer)

/-- `TI_FORMAT_I444` on both sides. -/
def copyPlanar : Except Fault DataBuffer := do
  let _ ← image.m_InternalBuffer.GetPtrForWriting 0
  if Ti_Image.fullFrame image srcDesc pSrcRect then
    PlanarPath.copy image pData srcDesc pSrcRect .fullFrame
  else if Ti_Image.fullWidth image srcDesc pSrcRect then
    PlanarPath.copy image pData srcDesc pSrcRect .fullWidth
  else PlanarPath.copy image pData srcDesc pSrcRect .rows

/-! ### Packed -/

structure PackedRow where
  pDst : Nat
  pSrc : Nat
  buffer : DataBuffer

def lineLen : BitVec 32 :=
  (pSrcRect.right - pSrcRect.left) * ImageDesc.GetBytesPerPixel srcDesc.m_PixelFormat

def packedStart : PackedRow :=
  let Bpp := ImageDesc.GetBytesPerPixel srcDesc.m_PixelFormat
  let pSrc := (pSrcRect.left * Bpp + pSrcRect.top * srcDesc.m_Stride).toNat
  let pDst := (pSrcRect.top * image.m_ImageDesc.m_Stride + pSrcRect.left * Bpp).toNat
  ⟨pDst, pSrc, image.m_InternalBuffer⟩

def packedRow (s : PackedRow) : Except Fault PackedRow := do
  let buffer ← s.buffer.memcpy s.pDst pData s.pSrc (lineLen srcDesc pSrcRect).toNat
  return ⟨s.pDst + image.m_ImageDesc.m_Stride.toNat, s.pSrc + srcDesc.m_Stride.toNat, buffer⟩

/-- The copy of the whole frame at once. -/
def packedFrame : Except Fault DataBuffer :=
  let start := packedStart image srcDesc pSrcRect
  image.m_InternalBuffer.memcpy start.pDst pData start.pSrc
    (lineLen srcDesc pSrcRect * image.m_ImageDesc.m_Height).toNat

/-- The copy row by row. -/
def packedRows : Except Fault DataBuffer :=
  (upTo (fun _ s => s >>= packedRow image pData srcDesc pSrcRect) (rowCount pSrcRect)
    (.ok (packedStart image srcDesc pSrcRect))).map (·.buffer)

/-- Another format that is the same on both sides. -/
def copyPacked : Except Fault DataBuffer := do
  let _ ← image.m_InternalBuffer.GetPtrForWriting 0
  if Ti_Image.fullFrame image srcDesc pSrcRect then packedFrame image pData srcDesc pSrcRect
  else packedRows image pData srcDesc pSrcRect

/-! ### `BGRA` to `I444` -/

/-- The columns that are converted: `left` and `right`, widened to blocks of sixteen. -/
def widened : BitVec 32 × BitVec 32 :=
  let left := pSrcRect.left
  let right := pSrcRect.right
  if (right - left) % 16 ≠ 0 then
    if left ≥ 16 - (right - left) % 16 then (left - (16 - (right - left) % 16), right)
    else if image.m_ImageDesc.m_Width - right ≥ 16 - (right - left) % 16 then
      (left, right + (16 - (right - left) % 16))
    else (0, image.m_ImageDesc.m_Width)
  else (left, right)

/-- The stores of the assembly, at addresses counted from `pDst`. -/
def storeAll (pDst : BitVec 32) : List (BitVec 32 × BitVec 8) → DataBuffer → Except Fault DataBuffer
  | [], b => .ok b
  | (a, v) :: stores, b => do
    let b ← b.copyTo (pDst + a).toNat [UInt8.ofBitVec v]
    storeAll pDst stores b

def pSrc : BitVec 32 :=
  let BppSrc := ImageDesc.GetBytesPerPixel srcDesc.m_PixelFormat
  let (left, _) := widened image pSrcRect
  left * BppSrc + pSrcRect.top * srcDesc.m_Stride

/-- The source from `pSrc` on, as the assembly sees it: behind the block is whatever is there. -/
def pSrcBytes : ImageProcess.Plane := fun a =>
  (pData.bytes (pSrc image srcDesc pSrcRect + a).toNat).toBitVec

/-- The call of `BGRA32ToYUV444_SSE`. -/
def conversion : Option (ImageProcess.YuvStores × Mmx) :=
  let (left, right) := widened image pSrcRect
  ImageProcess.BGRA32ToYUV444_SSE fuel mmx (pSrcBytes image pData srcDesc pSrcRect) srcDesc.m_Stride
    image.m_ImageDesc.m_Width (right - left) (pSrcRect.bottom - pSrcRect.top)

def pDstY : BitVec 32 :=
  let (left, _) := widened image pSrcRect
  pSrcRect.top * image.m_ImageDesc.m_Width + left

def pDstU : BitVec 32 :=
  pDstY image pSrcRect + image.m_ImageDesc.m_Width * image.m_ImageDesc.m_Height

def pDstV : BitVec 32 :=
  pDstU image pSrcRect + image.m_ImageDesc.m_Width * image.m_ImageDesc.m_Height

/-- What the conversion leaves in the three planes. -/
def storePlanes (stores : ImageProcess.YuvStores) : Except Fault DataBuffer := do
  let buffer ← storeAll (pDstY image pSrcRect) stores.y image.m_InternalBuffer
  let buffer ← storeAll (pDstU image pSrcRect) stores.u buffer
  storeAll (pDstV image pSrcRect) stores.v buffer

/-- `none` when the assembly has not ended. -/
def copyConverted : Option (Except Fault DataBuffer) :=
  match image.m_InternalBuffer.GetPtrForWriting 0 with
  | .error e => some (.error e)
  | .ok _ =>
    (conversion fuel mmx image pData srcDesc pSrcRect).map fun t => storePlanes image pSrcRect t.1

def CopyFrom : Option (Except Fault Ti_Image) :=
  let filled : Except Fault DataBuffer → Except Fault Ti_Image :=
    fun r => r.map fun buffer => { image with m_InternalBuffer := buffer }
  if ¬ inBounds image srcDesc pSrcRect then some (.ok image)
  else if srcDesc.m_PixelFormat = image.m_ImageDesc.m_PixelFormat then
    if image.m_ImageDesc.m_PixelFormat = .TI_FORMAT_I444 then
      some (filled (copyPlanar image pData srcDesc pSrcRect))
    else some (filled (copyPacked image pData srcDesc pSrcRect))
  else if srcDesc.m_PixelFormat = .TI_FORMAT_B8G8R8A8_UNORM
      ∧ image.m_ImageDesc.m_PixelFormat = .TI_FORMAT_I444 then
    (copyConverted fuel mmx image pData srcDesc pSrcRect).map filled
  else
    some (.error (.ensure ("srcDesc.m_PixelFormat == TI_FORMAT_B8G8R8A8_UNORM && " ++
      "m_ImageDesc.m_PixelFormat == TI_FORMAT_I444")))

end CopyFrom

end Ti_Image

/-! ## Images in memory -/

/-- A byte of the buffer, where it has one. -/
def DataBuffer.byteAt (b : DataBuffer) (off : Nat) : Option UInt8 :=
  if off < b.m_BufferSize then some (b.m_Buffer off) else none

/-- The three planes of an `I444` image. -/
def ImageDesc.planar (desc : ImageDesc) : Layout :=
  ⟨desc.m_Height.toNat * desc.m_Width.toNat, desc.m_Width.toNat⟩

/-- What `pData` points to is an image as the description says, in a 32-bit address space. -/
structure Block.Holds (pData : Block) (desc : ImageDesc) : Prop where
  stride : desc.m_Stride = ImageDesc.GetStride desc.m_PixelFormat desc.m_Width
  line_le : desc.m_Width.toNat * (ImageDesc.GetBytesPerPixel desc.m_PixelFormat).toNat ≤
    desc.m_Stride.toNat
  size : desc.m_Height.toNat * desc.m_Stride.toNat ≤ pData.size
  size_lt : pData.size < 2 ^ 32

/-- An image that `Setup` has set up. -/
structure Ti_Image.SetUp (image : Ti_Image) : Prop where
  stride : image.m_ImageDesc.m_Stride =
    ImageDesc.GetStride image.m_ImageDesc.m_PixelFormat image.m_ImageDesc.m_Width
  size : (image.m_ImageDesc.m_Stride * image.m_ImageDesc.m_Height).toNat ≤
    image.m_InternalBuffer.m_BufferSize
  size_lt : image.m_InternalBuffer.m_BufferSize < 2 ^ 32

/-- `0 <= left <= right` and `0 <= top <= bottom`. -/
structure RECT.Ordered (r : RECT) : Prop where
  left_nonneg : 0 ≤ r.left.toInt
  left_le : r.left.toInt ≤ r.right.toInt
  top_nonneg : 0 ≤ r.top.toInt
  top_le : r.top.toInt ≤ r.bottom.toInt

def RECT.Empty (r : RECT) : Prop := r.left = r.right ∨ r.top = r.bottom

def RECT.Has (r : RECT) (c : Cell) : Prop :=
  r.top.toNat ≤ c.line ∧ c.line < r.bottom.toNat ∧ r.left.toNat ≤ c.col ∧ c.col < r.right.toNat

instance (r : RECT) : Decidable r.Empty := inferInstanceAs (Decidable (_ ∨ _))

theorem RECT.Ordered.toNat {r : RECT} (h : r.Ordered) :
    r.left.toNat ≤ r.right.toNat ∧ r.top.toNat ≤ r.bottom.toNat := by
  have hleft := h.left_nonneg
  have hright := h.left_le
  have htop := h.top_nonneg
  have hbottom := h.top_le
  simp only [BitVec.toInt_eq_toNat_cond] at hleft hright htop hbottom
  constructor
  · split_ifs at hleft hright <;> omega
  · split_ifs at htop hbottom <;> omega

theorem RECT.Ordered.rowCount {r : RECT} (h : r.Ordered) :
    Ti_Image.rowCount r = r.bottom.toNat - r.top.toNat := by
  have htop := h.top_nonneg
  have hbottom := h.top_le
  unfold Ti_Image.rowCount
  simp only [BitVec.toInt_eq_toNat_cond] at htop hbottom ⊢
  split_ifs at htop hbottom ⊢ <;> omega

theorem RECT.Ordered.of_not_empty {r : RECT} (h : r.Ordered) (hempty : ¬ r.Empty) :
    r.left.toNat < r.right.toNat ∧ r.top.toNat < r.bottom.toNat := by
  obtain ⟨hcols, hlines⟩ := not_or.mp hempty
  obtain ⟨hleft, htop⟩ := h.toNat
  exact ⟨Nat.lt_of_le_of_ne hleft fun heq => hcols (BitVec.eq_of_toNat_eq heq),
    Nat.lt_of_le_of_ne htop fun heq => hlines (BitVec.eq_of_toNat_eq heq)⟩

theorem RECT.Has.not_empty {r : RECT} {c : Cell} (h : r.Has c) : ¬ r.Empty := by
  obtain ⟨htop, hbottom, hleft, hright⟩ := h
  rintro (hcols | hlines)
  · rw [hcols] at hleft
    omega
  · rw [hlines] at htop
    omega

/-- `Setup` leaves an image that is set up. -/
theorem Ti_Image.setUp_of_SetupOf {fresh : Nat → Mem UInt8} {image image' : Ti_Image}
    {width height : BitVec 32} {pf : TI_PIXEL_FORMAT}
    (hpf : pf ≠ .TI_FORMAT_IYUV ∧ pf ≠ .TI_FORMAT_NV12)
    (hsize : image.m_InternalBuffer.m_BufferSize < 2 ^ 32)
    (h : image.SetupOf fresh width height pf = .ok image') : image'.SetUp := by
  unfold SetupOf Setup DataBuffer.SetBufferSizeLowerBound at h
  rw [if_neg (not_or.mpr hpf)] at h
  dsimp only at h
  split_ifs at h with hgrows howned
  · obtain rfl := Except.ok.inj h
    exact ⟨rfl, Nat.le_refl _, BitVec.isLt _⟩
  · obtain rfl := Except.ok.inj h
    exact ⟨rfl, Nat.le_of_not_lt hgrows, hsize⟩

/-! ## `memcpy` -/

/-- A `memcpy` stays inside its two blocks. -/
theorem DataBuffer.memcpy_spec (b : DataBuffer) (pDst : Nat) (pData : Block) (pSrc len : Nat)
    (hsrc : pSrc + len ≤ pData.size) (hdst : pDst + len ≤ b.m_BufferSize) :
    b.memcpy pDst pData pSrc len =
      .ok { b with m_Buffer := b.m_Buffer.write pDst (pData.bytes.read pSrc len) } := by
  unfold memcpy copyTo
  rw [Mem.read_length, if_pos hsrc, if_pos hdst]
  split_ifs with hlen
  · subst hlen
    have hsame : b.m_Buffer.write pDst (pData.bytes.read pSrc 0) = b.m_Buffer := by
      funext j
      rw [Mem.write_read_apply, if_neg (by omega)]
    rw [hsame]
  · rfl

@[simp] theorem DataBuffer.memcpy_zero (b : DataBuffer) (pDst : Nat) (pData : Block) (pSrc : Nat) :
    b.memcpy pDst pData pSrc 0 = .ok b := if_pos rfl

/-- Up to column `hi` of a line in plane `p`. -/
theorem Lib.Layout.place_add_le {l : Layout} {p y lo hi n k : Nat} (hlo : lo ≤ hi)
    (hhi : hi ≤ l.stride)
    (hy : y < n) (hn : n * l.stride ≤ l.plane) (hp : p < k) :
    l.place ⟨p, y, lo⟩ + (hi - lo) ≤ k * l.plane := by
  have hline := line_add_le hhi hy
  have hplane : p * l.plane + l.plane ≤ k * l.plane := line_add_le (Nat.le_refl _) hp
  simp only [place]
  omega

end TiraRdp
