import TiraRdp.Utility.ImageBuffer

/-!
# `Ti_Image`: copying packed pixels

The branch of `Ti_Image::CopyFrom` for a packed format that both sides have
(`common/utility/private/common/imagebuffer.cpp:63-88`): row by row, or a whole frame at once. A
`Cell` of plane 0 names a byte by its line and its column in bytes.

Result: the rectangle is copied and nothing else exactly when it is in the buffer and, for a whole
frame, the pixels behind the first `Width * Bpp * Height` bytes are the source's already
(`packed_copied_iff`). The copy of a whole frame leaves out the padding of the lines when it counts
its bytes (`padded_frame_cut_off`).
-/

namespace TiraRdp

open Lib Lib.Loop Lib.Simd

namespace Ti_Image

/-- The formats whose pixels are a number of bytes behind each other. -/
def Packed (format : TI_PIXEL_FORMAT) : Prop :=
  format = .TI_FORMAT_RGB_24 ∨ format = .TI_FORMAT_B8G8R8A8_UNORM ∨ format = .TI_FORMAT_U8Y8V8Y8 ∨
    format = .TI_FORMAT_Y8U8Y8V8

/-- The number of bytes of a pixel. -/
def Bpp (desc : ImageDesc) : Nat := (ImageDesc.GetBytesPerPixel desc.m_PixelFormat).toNat

end Ti_Image

/-- The bytes of a packed image, padding and all. -/
def ImageDesc.packed (desc : ImageDesc) : Layout :=
  ⟨desc.m_Height.toNat * desc.m_Stride.toNat, desc.m_Stride.toNat⟩

/-- Where byte `k` of pixel `x` in line `y` is. -/
def ImageDesc.pixelAt (desc : ImageDesc) (x y k : Nat) : Nat :=
  desc.packed.place ⟨0, y, x * Ti_Image.Bpp desc + k⟩

/-- Byte `k` of a pixel, where its line and the buffer have it. -/
def DataBuffer.pixelByte (b : DataBuffer) (desc : ImageDesc) (x y k : Nat) : Option UInt8 :=
  if x * Ti_Image.Bpp desc + k < desc.m_Stride.toNat then b.byteAt (desc.pixelAt x y k) else none

namespace Ti_Image

variable {fuel : Nat} {mmx : Mmx} {image : Ti_Image} {pData : Block} {srcDesc : ImageDesc}
  {pSrcRect : RECT}

/-- The pixels of the rectangle are those of the source, and the others are as they were. -/
structure PixelsCopied (desc : ImageDesc) (pData : Block) (srcDesc : ImageDesc) (pSrcRect : RECT)
    (b b' : DataBuffer) : Prop where
  size : b'.m_BufferSize = b.m_BufferSize
  inside : ∀ x y k, k < Bpp desc → pSrcRect.Has ⟨0, y, x⟩ →
    b'.pixelByte desc x y k = some (pData.bytes (srcDesc.pixelAt x y k))
  outside : ∀ x y k, k < Bpp desc → y < desc.m_Height.toNat → x < desc.m_Width.toNat →
    ¬ pSrcRect.Has ⟨0, y, x⟩ → b'.pixelByte desc x y k = b.pixelByte desc x y k

/-- `CopyFrom` copies the rectangle, and the copy of a whole frame is that of its rows. -/
structure PackedCopied (fuel : Nat) (mmx : Mmx) (image : Ti_Image) (pData : Block)
    (srcDesc : ImageDesc)
    (pSrcRect : RECT) : Prop where
  copied : ∃ buffer, CopyFrom fuel mmx image pData srcDesc pSrcRect =
      some (.ok { image with m_InternalBuffer := buffer }) ∧
    PixelsCopied image.m_ImageDesc pData srcDesc pSrcRect image.m_InternalBuffer buffer
  agree : fullFrame image srcDesc pSrcRect →
    ∃ b₁ b₂, packedFrame image pData srcDesc pSrcRect = .ok b₁ ∧
      packedRows image pData srcDesc pSrcRect = .ok b₂ ∧
      ∀ x y k, k < Bpp image.m_ImageDesc → y < image.m_ImageDesc.m_Height.toNat →
        x < image.m_ImageDesc.m_Width.toNat →
        b₁.pixelByte image.m_ImageDesc x y k = b₂.pixelByte image.m_ImageDesc x y k

/-- The last pixel of the rectangle is in its line and in the buffer. -/
def packedInside (image : Ti_Image) (pSrcRect : RECT) : Prop :=
  pSrcRect.right.toNat * Bpp image.m_ImageDesc ≤ image.m_ImageDesc.m_Stride.toNat ∧
    (pSrcRect.bottom.toNat - 1) * image.m_ImageDesc.m_Stride.toNat +
      pSrcRect.right.toNat * Bpp image.m_ImageDesc ≤ image.m_InternalBuffer.m_BufferSize

/-- The pixels behind the first `Width * Bpp * Height` bytes are those of the source already. -/
def tailEqual (image : Ti_Image) (pData : Block) : Prop :=
  ∀ x y k, k < Bpp image.m_ImageDesc → y < image.m_ImageDesc.m_Height.toNat →
    x < image.m_ImageDesc.m_Width.toNat →
    image.m_ImageDesc.m_Width.toNat * Bpp image.m_ImageDesc * image.m_ImageDesc.m_Height.toNat ≤
      image.m_ImageDesc.pixelAt x y k →
    image.m_InternalBuffer.m_Buffer (image.m_ImageDesc.pixelAt x y k) =
      pData.bytes (image.m_ImageDesc.pixelAt x y k)

/-- What the copy of a rectangle that is not empty rests on. -/
structure PackedFits (image : Ti_Image) (pData : Block) (srcDesc : ImageDesc) (r : RECT) :
    Prop where
  format : srcDesc.m_PixelFormat = image.m_ImageDesc.m_PixelFormat
  packed : Packed image.m_ImageDesc.m_PixelFormat
  left : r.left.toNat < r.right.toNat
  top : r.top.toNat < r.bottom.toNat
  line_src : r.right.toNat * Bpp image.m_ImageDesc ≤ srcDesc.m_Stride.toNat
  bottom_src : r.bottom.toNat ≤ srcDesc.m_Height.toNat
  bottom_dst : r.bottom.toNat ≤ image.m_ImageDesc.m_Height.toNat
  src : srcDesc.packed.plane ≤ pData.size
  src_lt : pData.size < 2 ^ 32
  dst : packedInside image r
  dst_lt : image.m_InternalBuffer.m_BufferSize < 2 ^ 32

/-- The bytes of the rectangle. -/
def HasByte (desc : ImageDesc) (r : RECT) (c : Cell) : Prop :=
  c.plane = 0 ∧ r.top.toNat ≤ c.line ∧ c.line < r.bottom.toNat ∧ r.left.toNat * Bpp desc ≤ c.col ∧
    c.col < r.right.toNat * Bpp desc

/-- The loop over the rows, `i` rows below the top. -/
structure PackedRow.At (image : Ti_Image) (pData : Block) (srcDesc : ImageDesc) (r : RECT) (i : Nat)
    (s : PackedRow) : Prop where
  pDst : s.pDst = image.m_ImageDesc.packed.place
    ⟨0, r.top.toNat + i, r.left.toNat * Bpp image.m_ImageDesc⟩
  pSrc : s.pSrc = srcDesc.packed.place ⟨0, r.top.toNat + i, r.left.toNat * Bpp image.m_ImageDesc⟩
  size : s.buffer.m_BufferSize = image.m_InternalBuffer.m_BufferSize
  copied : Blit image.m_ImageDesc.packed.place srcDesc.packed.place pData.bytes
    image.m_InternalBuffer.m_Buffer s.buffer.m_Buffer
    fun c => HasByte image.m_ImageDesc r c ∧ c.line < r.top.toNat + i

theorem packed_place (desc : ImageDesc) (y x : Nat) :
    desc.packed.place ⟨0, y, x⟩ = y * desc.m_Stride.toNat + x := by
  simp [Layout.place, ImageDesc.packed]

theorem pixelAt_eq (desc : ImageDesc) (x y k : Nat) :
    desc.pixelAt x y k = y * desc.m_Stride.toNat + (x * Bpp desc + k) := packed_place _ _ _

theorem Packed.bpp_pos {desc : ImageDesc} (h : Packed desc.m_PixelFormat) : 0 < Bpp desc := by
  unfold Bpp
  rcases h with h | h | h | h
  · rw [h]
    decide
  · rw [h]
    decide
  · rw [h]
    decide
  · rw [h]
    decide

section Fits

variable (h : PackedFits image pData srcDesc pSrcRect)

include h

theorem PackedFits.bpp_eq : Bpp srcDesc = Bpp image.m_ImageDesc := by
  unfold Bpp
  rw [h.format]

theorem PackedFits.columns : pSrcRect.left.toNat * Bpp image.m_ImageDesc <
    pSrcRect.right.toNat * Bpp image.m_ImageDesc :=
  Nat.mul_lt_mul_of_pos_right h.left h.packed.bpp_pos

theorem PackedFits.lineLen_eq : (lineLen srcDesc pSrcRect).toNat =
    pSrcRect.right.toNat * Bpp image.m_ImageDesc - pSrcRect.left.toNat * Bpp image.m_ImageDesc := by
  have hbpp : (ImageDesc.GetBytesPerPixel srcDesc.m_PixelFormat).toNat =
    Bpp image.m_ImageDesc := h.bpp_eq
  have hsub : (pSrcRect.right - pSrcRect.left).toNat = pSrcRect.right.toNat - pSrcRect.left.toNat :=
    BitVec.toNat_sub_of_le (Nat.le_of_lt h.left)
  have hlt := Nat.lt_of_le_of_lt h.line_src srcDesc.m_Stride.isLt
  rw [lineLen, BitVec.toNat_mul_of_lt, hsub, hbpp, Nat.sub_mul]
  rw [hsub, hbpp, Nat.sub_mul]
  omega

/-- The pointers before the first row. -/
theorem PackedFits.start :
    (packedStart image srcDesc pSrcRect).At image pData srcDesc pSrcRect 0 := by
  have hbpp : (ImageDesc.GetBytesPerPixel srcDesc.m_PixelFormat).toNat =
    Bpp image.m_ImageDesc := h.bpp_eq
  have hcolumns := h.columns
  have htop := h.top
  have hsrc := h.src
  have hsrclt := h.src_lt
  have hdst := h.dst.2
  have hdstlt := h.dst_lt
  have hsrcline := line_add_le (Nat.le_trans (Nat.le_of_lt hcolumns) h.line_src)
    (Nat.lt_of_lt_of_le htop h.bottom_src)
  have hdstline : pSrcRect.top.toNat * image.m_ImageDesc.m_Stride.toNat ≤
      (pSrcRect.bottom.toNat - 1) * image.m_ImageDesc.m_Stride.toNat :=
    Nat.mul_le_mul_right _ (by omega)
  simp only [ImageDesc.packed] at hsrc
  have hleft : (pSrcRect.left * ImageDesc.GetBytesPerPixel srcDesc.m_PixelFormat).toNat =
      pSrcRect.left.toNat * Bpp image.m_ImageDesc := by
    rw [BitVec.toNat_mul_of_lt (by rw [hbpp]; omega), hbpp]
  have hsrcmul : (pSrcRect.top * srcDesc.m_Stride).toNat =
      pSrcRect.top.toNat * srcDesc.m_Stride.toNat := BitVec.toNat_mul_of_lt (by omega)
  have hdstmul : (pSrcRect.top * image.m_ImageDesc.m_Stride).toNat =
      pSrcRect.top.toNat * image.m_ImageDesc.m_Stride.toNat := BitVec.toNat_mul_of_lt (by omega)
  refine ⟨?_, ?_, rfl, blit_nil ?_⟩
  · simp only [packedStart, packed_place, Nat.add_zero]
    rw [BitVec.toNat_add_of_lt (by rw [hdstmul, hleft]; omega), hdstmul, hleft]
  · simp only [packedStart, packed_place, Nat.add_zero]
    rw [BitVec.toNat_add_of_lt (by rw [hsrcmul, hleft]; omega), hsrcmul, hleft, Nat.add_comm]
  · rintro c ⟨hc, hlt⟩
    exact absurd hc.2.1 (by omega)

theorem PackedFits.has {c : Cell} (hc : HasByte image.m_ImageDesc pSrcRect c) :
    image.m_ImageDesc.packed.Has c := by
  obtain ⟨-, -, hbottom, -, hright⟩ := hc
  have hcol : c.col < image.m_ImageDesc.m_Stride.toNat := Nat.lt_of_lt_of_le hright h.dst.1
  exact ⟨hcol, line_add_le (Nat.succ_le_of_lt hcol) (Nat.lt_of_lt_of_le hbottom h.bottom_dst)⟩

/-- A line of the rectangle is in the buffer. -/
theorem PackedFits.dst_le {y : Nat} (hy : y < pSrcRect.bottom.toNat) :
    y * image.m_ImageDesc.m_Stride.toNat + pSrcRect.right.toNat * Bpp image.m_ImageDesc ≤
      image.m_InternalBuffer.m_BufferSize := by
  have hline : y * image.m_ImageDesc.m_Stride.toNat ≤
      (pSrcRect.bottom.toNat - 1) * image.m_ImageDesc.m_Stride.toNat :=
        Nat.mul_le_mul_right _ (by omega)
  exact Nat.le_trans (Nat.add_le_add_right hline _) h.dst.2

/-- **A row.** -/
theorem PackedFits.row {i : Nat} (hi : pSrcRect.top.toNat + i < pSrcRect.bottom.toNat)
    {s : PackedRow}
    (hs : s.At image pData srcDesc pSrcRect i) :
    ∃ t, packedRow image pData srcDesc pSrcRect s = .ok t ∧
      t.At image pData srcDesc pSrcRect (i + 1) := by
  have hcolumns := h.columns
  have hsrcline := line_add_le h.line_src (Nat.lt_of_lt_of_le hi h.bottom_src)
  have hdstline := h.dst_le hi
  have hsrc := h.src
  simp only [ImageDesc.packed] at hsrc
  have hcopy := DataBuffer.memcpy_spec s.buffer s.pDst pData s.pSrc (lineLen srcDesc pSrcRect).toNat
    (by rw [hs.pSrc, h.lineLen_eq, packed_place]; omega)
    (by rw [hs.pDst, hs.size, h.lineLen_eq, packed_place]; omega)
  have hblit := hs.copied.line (p := 0) (fun c hc => h.has hc.1)
    (fun c (hc : Cell.In 0 (pSrcRect.top.toNat + i) _
        (pSrcRect.right.toNat * Bpp image.m_ImageDesc) c) =>
      h.has ⟨hc.1, by rw [hc.2.1]; omega, by rw [hc.2.1]; exact hi, hc.2.2.1, hc.2.2.2⟩)
  rw [← hs.pDst, ← hs.pSrc, ← h.lineLen_eq] at hblit
  have hnext : ∀ (desc : ImageDesc),
      desc.packed.place ⟨0, pSrcRect.top.toNat + i, pSrcRect.left.toNat * Bpp image.m_ImageDesc⟩ +
          desc.m_Stride.toNat =
        desc.packed.place ⟨0, pSrcRect.top.toNat + (i + 1),
          pSrcRect.left.toNat * Bpp image.m_ImageDesc⟩ := by
    intro desc
    rw [packed_place, packed_place, ← Nat.add_assoc pSrcRect.top.toNat i 1, Nat.add_one_mul]
    omega
  rw [packedRow, hcopy]
  refine ⟨_, rfl, ⟨?_, ?_, hs.size, hblit.congr ?_⟩⟩
  · rw [← hnext, ← hs.pDst]
  · rw [← hnext, ← hs.pSrc]
  · intro c
    unfold Cell.In HasByte
    omega

/-- **The loop over the rows.** -/
theorem PackedFits.rows (hr : pSrcRect.Ordered) :
    ∃ buffer, packedRows image pData srcDesc pSrcRect = .ok buffer ∧
      buffer.m_BufferSize = image.m_InternalBuffer.m_BufferSize ∧
      Blit image.m_ImageDesc.packed.place srcDesc.packed.place pData.bytes
        image.m_InternalBuffer.m_Buffer buffer.m_Buffer (HasByte image.m_ImageDesc pSrcRect) := by
  have htop := h.top
  obtain ⟨s, hs, hat⟩ := upTo_ok (n := rowCount pSrcRect) (packedRow image pData srcDesc pSrcRect)
    (PackedRow.At image pData srcDesc pSrcRect) h.start
    (by
      intro i s hi hs
      rw [hr.rowCount] at hi
      exact h.row (by omega) hs)
  rw [hr.rowCount] at hat
  refine ⟨s.buffer, congrArg (Except.map PackedRow.buffer) hs, hat.size, hat.copied.congr fun c => ?_⟩
  unfold HasByte
  omega

/-- Byte `k` of a pixel of the rectangle. -/
theorem PackedFits.pixel {x y k : Nat} (hk : k < Bpp image.m_ImageDesc)
    (hc : pSrcRect.Has ⟨0, y, x⟩)
    {b : DataBuffer} (hsize : b.m_BufferSize = image.m_InternalBuffer.m_BufferSize) :
    HasByte image.m_ImageDesc pSrcRect ⟨0, y, x * Bpp image.m_ImageDesc + k⟩ ∧
      b.pixelByte image.m_ImageDesc x y k =
        some (b.m_Buffer (image.m_ImageDesc.pixelAt x y k)) := by
  obtain ⟨htop, hbottom, hleft, hright⟩ := hc
  dsimp only at htop hbottom hleft hright
  have hlo : pSrcRect.left.toNat * Bpp image.m_ImageDesc ≤ x * Bpp image.m_ImageDesc :=
    Nat.mul_le_mul_right _ hleft
  have hhi : x * Bpp image.m_ImageDesc + k < pSrcRect.right.toNat * Bpp image.m_ImageDesc :=
    (line_lt_iff hk).mpr hright
  have hdst := h.dst_le hbottom
  have hline := h.dst.1
  refine ⟨⟨rfl, htop, hbottom, Nat.le_add_right_of_le hlo, hhi⟩, ?_⟩
  rw [DataBuffer.pixelByte, if_pos (by omega), DataBuffer.byteAt,
    if_pos (by rw [pixelAt_eq, hsize]; omega)]

/-- The rectangle has been copied, pixel by pixel. -/
theorem PackedFits.pixels {buffer : DataBuffer}
    (hsize : buffer.m_BufferSize = image.m_InternalBuffer.m_BufferSize)
    (hblit : Blit image.m_ImageDesc.packed.place srcDesc.packed.place pData.bytes
      image.m_InternalBuffer.m_Buffer buffer.m_Buffer (HasByte image.m_ImageDesc pSrcRect)) :
    PixelsCopied image.m_ImageDesc pData srcDesc pSrcRect image.m_InternalBuffer buffer where
  size := hsize
  inside := by
    intro x y k hk hc
    obtain ⟨hbyte, hpixel⟩ := h.pixel hk hc hsize
    rw [hpixel, ImageDesc.pixelAt, hblit.copied _ hbyte, ImageDesc.pixelAt, h.bpp_eq]
  outside := by
    intro x y k hk hline hcol hout
    unfold DataBuffer.pixelByte
    split_ifs with hstride
    · have hhas : image.m_ImageDesc.packed.Has ⟨0, y, x * Bpp image.m_ImageDesc + k⟩ :=
        ⟨hstride, line_add_le (Nat.succ_le_of_lt hstride) hline⟩
      have hsame : buffer.m_Buffer (image.m_ImageDesc.pixelAt x y k) =
          image.m_InternalBuffer.m_Buffer (image.m_ImageDesc.pixelAt x y k) := by
        refine hblit.frame _ fun d hd heq => hout ?_
        have hd' := Layout.place_inj (h.has hd) hhas heq
        subst hd'
        obtain ⟨-, htop, hbottom, hlo, hhi⟩ := hd
        refine ⟨htop, hbottom, ?_, (line_lt_iff hk).mp hhi⟩
        have hnot := mt (line_lt_iff hk).mpr (Nat.not_lt_of_le hlo)
        exact Nat.le_of_not_lt hnot
      rw [DataBuffer.byteAt, DataBuffer.byteAt, hsize, hsame]
    · rfl

/-- A frame of `Height` lines without their padding. -/
theorem PackedFits.frame (himage : image.SetUp) (hfull : fullFrame image srcDesc pSrcRect) :
    ∃ buffer, packedFrame image pData srcDesc pSrcRect = .ok buffer ∧
      buffer.m_BufferSize = image.m_InternalBuffer.m_BufferSize ∧
      ∀ j, buffer.m_Buffer j =
        if j < image.m_ImageDesc.m_Width.toNat * Bpp image.m_ImageDesc *
            image.m_ImageDesc.m_Height.toNat then pData.bytes j
        else image.m_InternalBuffer.m_Buffer j := by
  obtain ⟨htop, hleft, hwidth, hheight, -, hheight', hstride⟩ := hfull
  have hbuffer := himage.size
  have hsrc := h.src
  have hsrclt := h.src_lt
  have hfirst : pSrcRect.top.toNat = 0 ∧ pSrcRect.left.toNat = 0 := by simp [htop, hleft]
  have hdst := h.start.pDst
  have hsrc' := h.start.pSrc
  rw [hfirst.1, hfirst.2, packed_place] at hdst hsrc'
  simp only [Nat.zero_mul, Nat.add_zero] at hdst hsrc'
  -- the lines of the source are as long, and all are copied
  have hle := Nat.mul_le_mul_right image.m_ImageDesc.m_Height.toNat h.line_src
  simp only [ImageDesc.packed] at hsrc
  rw [← hheight', hheight, Nat.mul_comm] at hsrc
  have hproduct : (image.m_ImageDesc.m_Stride * image.m_ImageDesc.m_Height).toNat =
      srcDesc.m_Stride.toNat * image.m_ImageDesc.m_Height.toNat := by
    rw [← hstride, BitVec.toNat_mul_of_lt (by omega)]
  have hlineLen : (lineLen srcDesc pSrcRect).toNat =
      pSrcRect.right.toNat * Bpp image.m_ImageDesc := by
    rw [h.lineLen_eq, hfirst.2, Nat.zero_mul, Nat.sub_zero]
  have hlen : (lineLen srcDesc pSrcRect * image.m_ImageDesc.m_Height).toNat =
      pSrcRect.right.toNat * Bpp image.m_ImageDesc * image.m_ImageDesc.m_Height.toNat := by
    rw [BitVec.toNat_mul_of_lt (by rw [hlineLen]; omega), hlineLen]
  have hcopy : packedFrame image pData srcDesc pSrcRect = .ok _ :=
    DataBuffer.memcpy_spec _ _ _ _ _ (by rw [hsrc', hlen]; omega) (by rw [hdst, hlen]; omega)
  refine ⟨_, hcopy, rfl, fun j => ?_⟩
  show Mem.write _ _ _ _ = _
  rw [hdst, hsrc', hlen, Mem.write_read_apply, hwidth]
  simp only [Nat.zero_le, true_and, Nat.zero_add, Nat.sub_zero]

/-- The copy of a whole frame copies its pixels exactly where it leaves out none that differs. -/
theorem PackedFits.frame_pixels (hfull : fullFrame image srcDesc pSrcRect) {buffer : DataBuffer}
    (hsize : buffer.m_BufferSize = image.m_InternalBuffer.m_BufferSize)
    (hbytes : ∀ j, buffer.m_Buffer j =
      if j < image.m_ImageDesc.m_Width.toNat * Bpp image.m_ImageDesc *
          image.m_ImageDesc.m_Height.toNat then pData.bytes j
      else image.m_InternalBuffer.m_Buffer j) :
    PixelsCopied image.m_ImageDesc pData srcDesc pSrcRect image.m_InternalBuffer buffer ↔
      tailEqual image pData := by
  obtain ⟨htop, hleft, hwidth, hheight, -, -, hstride⟩ := hfull
  have hsame : ∀ x y k, srcDesc.pixelAt x y k = image.m_ImageDesc.pixelAt x y k := by
    intro x y k
    rw [pixelAt_eq, pixelAt_eq, h.bpp_eq, hstride]
  have hall : ∀ x y, y < image.m_ImageDesc.m_Height.toNat → x < image.m_ImageDesc.m_Width.toNat →
      pSrcRect.Has ⟨0, y, x⟩ := by
    intro x y hy hx
    refine ⟨?_, ?_, ?_, ?_⟩
    · simp [htop]
    · rwa [hheight]
    · simp [hleft]
    · rwa [hwidth]
  constructor
  · intro hcopied x y k hk hy hx htail
    have hinside := hcopied.inside x y k hk (hall x y hy hx)
    rw [(h.pixel hk (hall x y hy hx) hsize).2, hsame, hbytes, if_neg (by omega)] at hinside
    exact Option.some.inj hinside
  · intro htail
    refine ⟨hsize, ?_, ?_⟩
    · intro x y k hk hc
      rw [(h.pixel hk hc hsize).2, hsame, hbytes]
      split_ifs with hlt
      · rfl
      · have hy := hc.2.1
        have hx := hc.2.2.2
        dsimp only at hx hy
        rw [htail x y k hk (by rwa [hheight] at hy) (by rwa [hwidth] at hx) (by omega)]
    · exact fun x y k _ hy hx hout => absurd (hall x y hy hx) hout

end Fits

/-- For an empty rectangle both ways do nothing. -/
theorem packed_empty (hr : pSrcRect.Ordered) (hempty : pSrcRect.Empty) :
    packedRows image pData srcDesc pSrcRect = .ok image.m_InternalBuffer ∧
      (fullFrame image srcDesc pSrcRect →
        packedFrame image pData srcDesc pSrcRect = .ok image.m_InternalBuffer) := by
  have hlineLen : pSrcRect.left = pSrcRect.right → lineLen srcDesc pSrcRect = 0 := by
    intro hcols
    rw [lineLen, hcols, BitVec.sub_self]
    exact BitVec.zero_mul
  constructor
  · obtain ⟨s, hs, hbuffer⟩ :=
      upTo_ok (n := rowCount pSrcRect) (s := packedStart image srcDesc pSrcRect)
      (packedRow image pData srcDesc pSrcRect) (fun _ s => s.buffer = image.m_InternalBuffer) rfl
      (by
        intro i s hi hs
        rcases hempty with hcols | hlines
        · show ∃ t, packedRow image pData srcDesc pSrcRect s = .ok t ∧ _
          rw [packedRow, hlineLen hcols]
          exact ⟨_, rfl, hs⟩
        · rw [hr.rowCount, hlines] at hi
          omega)
    rw [← hbuffer]
    exact congrArg (Except.map PackedRow.buffer) hs
  · rintro ⟨htop, -, -, hheight, -⟩
    have hlen : lineLen srcDesc pSrcRect * image.m_ImageDesc.m_Height = 0 := by
      rcases hempty with hcols | hlines
      · rw [hlineLen hcols]
        exact BitVec.zero_mul
      · rw [← hheight, ← hlines, htop]
        exact BitVec.mul_zero
    show image.m_InternalBuffer.memcpy _ _ _ (lineLen srcDesc pSrcRect * _).toNat = _
    rw [hlen]
    exact DataBuffer.memcpy_zero _ _ _ _

/-- What an empty rectangle leaves. -/
theorem pixelsCopied_refl (hr : pSrcRect.Empty) (b : DataBuffer) :
    PixelsCopied image.m_ImageDesc pData srcDesc pSrcRect b b where
  size := rfl
  inside := fun _ _ _ _ hc => absurd hr hc.not_empty
  outside := fun _ _ _ _ _ _ _ => rfl

theorem copyFrom_packed (hpacked : Packed image.m_ImageDesc.m_PixelFormat)
    (hfmt : srcDesc.m_PixelFormat = image.m_ImageDesc.m_PixelFormat)
    (hin : inBounds image srcDesc pSrcRect) :
    CopyFrom fuel mmx image pData srcDesc pSrcRect =
      some ((copyPacked image pData srcDesc pSrcRect).map fun buffer =>
        { image with m_InternalBuffer := buffer }) := by
  have hplanar : image.m_ImageDesc.m_PixelFormat ≠ .TI_FORMAT_I444 := by
    rcases hpacked with h | h | h | h <;> rw [h] <;> nofun
  unfold CopyFrom
  rw [if_neg (not_not.mpr hin), if_pos hfmt, if_neg hplanar]

theorem copyPacked_eq (hpos : 0 < image.m_InternalBuffer.m_BufferSize) :
    copyPacked image pData srcDesc pSrcRect =
      if fullFrame image srcDesc pSrcRect then packedFrame image pData srcDesc pSrcRect
      else packedRows image pData srcDesc pSrcRect := by
  unfold copyPacked DataBuffer.GetPtrForWriting
  rw [if_pos hpos]
  rfl

/-- A pixel that is not in its line and in the buffer is not copied. -/
theorem PixelsCopied.inside_of_not_empty {b b' : DataBuffer}
    (h : PixelsCopied image.m_ImageDesc pData srcDesc pSrcRect b b')
    (hpacked : Packed image.m_ImageDesc.m_PixelFormat) (hr : pSrcRect.Ordered)
    (hempty : ¬ pSrcRect.Empty) :
    pSrcRect.right.toNat * Bpp image.m_ImageDesc ≤ image.m_ImageDesc.m_Stride.toNat ∧
      (pSrcRect.bottom.toNat - 1) * image.m_ImageDesc.m_Stride.toNat +
        pSrcRect.right.toNat * Bpp image.m_ImageDesc ≤ b.m_BufferSize := by
  obtain ⟨hleft, htop⟩ := hr.of_not_empty hempty
  have hbpp := hpacked.bpp_pos
  have hlast := h.inside (pSrcRect.right.toNat - 1) (pSrcRect.bottom.toNat - 1)
    (Bpp image.m_ImageDesc - 1) (by omega)
    ⟨by dsimp only; omega, by dsimp only; omega, by dsimp only; omega, by dsimp only; omega⟩
  have hend : (pSrcRect.right.toNat - 1) * Bpp image.m_ImageDesc + Bpp image.m_ImageDesc =
      pSrcRect.right.toNat * Bpp image.m_ImageDesc := by
    rw [← Nat.add_one_mul, Nat.sub_add_cancel (by omega)]
  rw [DataBuffer.pixelByte, DataBuffer.byteAt, h.size, pixelAt_eq] at hlast
  split_ifs at hlast with hline hbuffer
  constructor <;> omega

/-- **Packed images.** The rectangle is copied, and a whole frame as row by row, exactly when the
destination has a buffer, the last pixel of the rectangle is in it, and a whole frame that is copied
at once leaves out no pixel that differs. -/
theorem packed_copied_iff (fuel : Nat) (mmx : Mmx) (himage : image.SetUp)
    (hsrc : pData.Holds srcDesc)
    (hpacked : Packed image.m_ImageDesc.m_PixelFormat)
    (hfmt : srcDesc.m_PixelFormat = image.m_ImageDesc.m_PixelFormat) (hr : pSrcRect.Ordered)
    (hin : inBounds image srcDesc pSrcRect) :
    PackedCopied fuel mmx image pData srcDesc pSrcRect ↔
      0 < image.m_InternalBuffer.m_BufferSize ∧ (pSrcRect.Empty ∨ packedInside image pSrcRect) ∧
        (fullFrame image srcDesc pSrcRect → tailEqual image pData) := by
  have hfits : ¬ pSrcRect.Empty → packedInside image pSrcRect →
      PackedFits image pData srcDesc pSrcRect := by
    intro hempty hinside
    obtain ⟨hleft, htop⟩ := hr.of_not_empty hempty
    obtain ⟨-, -, hrs, hbs, -, hbd⟩ := hin
    have hline := hsrc.line_le
    rw [hfmt] at hline
    exact ⟨hfmt, hpacked, hleft, htop, Nat.le_trans (Nat.mul_le_mul_right _ hrs) hline, hbs, hbd,
      hsrc.size, hsrc.size_lt, hinside, himage.size_lt⟩
  constructor
  · rintro ⟨⟨buffer, hcopy, hcopied⟩, -⟩
    rw [copyFrom_packed hpacked hfmt hin] at hcopy
    have hpos : 0 < image.m_InternalBuffer.m_BufferSize := by
      by_contra hzero
      rw [copyPacked, DataBuffer.GetPtrForWriting, if_neg hzero] at hcopy
      cases hcopy
    refine ⟨hpos, ?_, fun hfull => ?_⟩
    · by_cases hempty : pSrcRect.Empty
      · exact Or.inl hempty
      · exact Or.inr (hcopied.inside_of_not_empty hpacked hr hempty)
    · by_cases hempty : pSrcRect.Empty
      · intro x y k _ hy hx _
        obtain ⟨htop, hleft, hwidth, hheight, -⟩ := hfull
        rcases hempty with hcols | hlines
        · rw [← hwidth, ← hcols, hleft] at hx
          exact absurd hx (Nat.not_lt_zero x)
        · rw [← hheight, ← hlines, htop] at hy
          exact absurd hy (Nat.not_lt_zero y)
      · have h := hfits hempty (hcopied.inside_of_not_empty hpacked hr hempty)
        obtain ⟨buffer', hframe, hsize, hbytes⟩ := h.frame himage hfull
        rw [copyPacked_eq hpos, if_pos hfull, hframe] at hcopy
        have heq : buffer' = buffer :=
          congrArg m_InternalBuffer (Except.ok.inj (Option.some.inj hcopy))
        exact (h.frame_pixels hfull hsize hbytes).mp (heq ▸ hcopied)
  · rintro ⟨hpos, hreach, htail⟩
    -- both ways copy the rectangle
    have hrows : ∃ buffer, packedRows image pData srcDesc pSrcRect = .ok buffer ∧
        PixelsCopied image.m_ImageDesc pData srcDesc pSrcRect image.m_InternalBuffer buffer := by
      by_cases hempty : pSrcRect.Empty
      · exact ⟨_, (packed_empty hr hempty).1, pixelsCopied_refl hempty _⟩
      · have h := hfits hempty (hreach.resolve_left hempty)
        obtain ⟨buffer, hcopy, hsize, hblit⟩ := h.rows hr
        exact ⟨buffer, hcopy, h.pixels hsize hblit⟩
    have hframe : fullFrame image srcDesc pSrcRect →
        ∃ buffer, packedFrame image pData srcDesc pSrcRect = .ok buffer ∧
          PixelsCopied image.m_ImageDesc pData srcDesc pSrcRect image.m_InternalBuffer buffer := by
      intro hfull
      by_cases hempty : pSrcRect.Empty
      · exact ⟨_, (packed_empty hr hempty).2 hfull, pixelsCopied_refl hempty _⟩
      · have h := hfits hempty (hreach.resolve_left hempty)
        obtain ⟨buffer, hcopy, hsize, hbytes⟩ := h.frame himage hfull
        exact ⟨buffer, hcopy, (h.frame_pixels hfull hsize hbytes).mpr (htail hfull)⟩
    constructor
    · rw [copyFrom_packed hpacked hfmt hin, copyPacked_eq hpos]
      split_ifs with hfull
      · obtain ⟨buffer, hcopy, hcopied⟩ := hframe hfull
        exact ⟨buffer, by rw [hcopy]; rfl, hcopied⟩
      · obtain ⟨buffer, hcopy, hcopied⟩ := hrows
        exact ⟨buffer, by rw [hcopy]; rfl, hcopied⟩
    · intro hfull
      obtain ⟨b₁, hcopy₁, hcopied₁⟩ := hframe hfull
      obtain ⟨b₂, hcopy₂, hcopied₂⟩ := hrows
      refine ⟨b₁, b₂, hcopy₁, hcopy₂, fun x y k hk hy hx => ?_⟩
      by_cases hc : pSrcRect.Has ⟨0, y, x⟩
      · rw [hcopied₁.inside x y k hk hc, hcopied₂.inside x y k hk hc]
      · rw [hcopied₁.outside x y k hk hy hx hc, hcopied₂.outside x y k hk hy hx hc]

/-- Two lines of one pixel of three bytes and a byte of padding. -/
def oneByTwo : Ti_Image := ⟨⟨1, 2, 4, true, .TI_FORMAT_RGB_24⟩, ⟨fun _ => 0, 8, true, 0⟩⟩

theorem oneByTwo_setUp : oneByTwo.SetUp := ⟨rfl, by decide, by decide⟩

theorem oneByTwo_holds (bytes : Mem UInt8) : Block.Holds ⟨bytes, 8⟩ oneByTwo.m_ImageDesc :=
  ⟨rfl, by decide, Nat.le_refl 8, show 8 < 2 ^ 32 by decide⟩

/-- A line of it is copied. -/
theorem packed_copied_iff_line :
    PackedCopied 0 ImageProcess.clearedMmx oneByTwo ⟨fun _ => 1, 8⟩ oneByTwo.m_ImageDesc ⟨0, 0, 1, 1⟩ :=
  (packed_copied_iff 0 ImageProcess.clearedMmx oneByTwo_setUp (oneByTwo_holds fun _ => 1) (Or.inl rfl) rfl
    ⟨by decide, by decide, by decide, by decide⟩ (by decide)).mpr
    ⟨by decide, Or.inr ⟨by decide, by decide⟩, fun hfull => absurd hfull (by decide)⟩

/-- **A frame with padding is cut off**: of the eight bytes of the picture six are copied, and the
last byte of its last pixel is left as it was. -/
theorem padded_frame_cut_off :
    ¬ ∀ (image : Ti_Image) (pData : Block) (srcDesc : ImageDesc) (pSrcRect : RECT), image.SetUp →
      pData.Holds srcDesc → Packed image.m_ImageDesc.m_PixelFormat →
      srcDesc.m_PixelFormat = image.m_ImageDesc.m_PixelFormat →
      0 < image.m_ImageDesc.m_Width.toNat → 0 < image.m_ImageDesc.m_Height.toNat →
      0 < srcDesc.m_Width.toNat → 0 < srcDesc.m_Height.toNat → pSrcRect.Ordered →
      inBounds image srcDesc pSrcRect →
      PackedCopied 0 ImageProcess.clearedMmx image pData srcDesc pSrcRect := by
  intro hall
  obtain ⟨⟨buffer, hcopy, hcopied⟩, -⟩ :=
    hall oneByTwo ⟨fun _ => 1, 8⟩ oneByTwo.m_ImageDesc ⟨0, 0, 1, 2⟩
    oneByTwo_setUp (oneByTwo_holds fun _ => 1) (Or.inl rfl) rfl (by decide) (by decide) (by decide)
    (by decide) ⟨by decide, by decide, by decide, by decide⟩ (by decide)
  have hbuffer : Mem.write (fun _ => 0) 0 (Mem.read (fun _ => (1 : UInt8)) 0 6) = buffer.m_Buffer :=
    congrArg (fun image => image.m_InternalBuffer.m_Buffer) (Except.ok.inj (Option.some.inj hcopy))
  have hlast := hcopied.inside 0 1 2 (by decide) ⟨by decide, by decide, by decide, by decide⟩
  rw [DataBuffer.pixelByte, if_pos (by decide), DataBuffer.byteAt, hcopied.size, if_pos (by decide),
    ← hbuffer] at hlast
  exact absurd hlast (by decide)

end Ti_Image

end TiraRdp
