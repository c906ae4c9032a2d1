import TiraRdp.Utility.ImageBuffer

/-!
# `Ti_Image`: copying planes

The branch of `Ti_Image::CopyFrom` for `TI_FORMAT_I444` on both sides
(`common/utility/private/common/imagebuffer.cpp:22-62`). It has three ways: the whole buffer at
once, the whole planes at once, and row by row. A `Cell` names a sample by plane, line and column.

Result: the rectangle is copied and nothing else, with every way that is for it, exactly when its
last sample is in the buffer (`planar_copied_iff`). It is wherever `Setup` has not multiplied stride
and height to 2^32 or more (`planarInside_of_lt`); where it has, `CopyFrom` writes behind the buffer
(`planar_outside_the_buffer`).
-/

namespace TiraRdp

open Lib Lib.Loop Lib.Simd

namespace Ti_Image

variable {fuel : Nat} {mmx : Mmx} {image : Ti_Image} {pData : Block} {srcDesc : ImageDesc}
  {pSrcRect : RECT}

/-! ## Planar images -/

/-- The samples of the rectangle are those of the source, and the others are as they were. -/
structure SamplesCopied (desc : ImageDesc) (pData : Block) (srcDesc : ImageDesc) (pSrcRect : RECT)
    (b b' : DataBuffer) : Prop where
  size : b'.m_BufferSize = b.m_BufferSize
  inside : ∀ c, c.plane < 3 → pSrcRect.Has c →
    b'.byteAt (desc.planar.place c) = some (pData.bytes (srcDesc.planar.place c))
  outside : ∀ c, c.plane < 3 → c.line < desc.m_Height.toNat → c.col < desc.m_Width.toNat →
    ¬ pSrcRect.Has c → b'.byteAt (desc.planar.place c) = b.byteAt (desc.planar.place c)

/-- `CopyFrom` copies the rectangle without leaving a block, and so does each of its ways that is
for this rectangle, with the same samples. -/
structure PlanarCopied (fuel : Nat) (mmx : Mmx) (image : Ti_Image) (pData : Block)
    (srcDesc : ImageDesc)
    (pSrcRect : RECT) : Prop where
  copied : ∃ buffer, CopyFrom fuel mmx image pData srcDesc pSrcRect =
      some (.ok { image with m_InternalBuffer := buffer }) ∧
    SamplesCopied image.m_ImageDesc pData srcDesc pSrcRect image.m_InternalBuffer buffer
  agree : ∀ path₁ path₂ : PlanarPath, path₁.Applies image srcDesc pSrcRect →
    path₂.Applies image srcDesc pSrcRect →
    ∃ b₁ b₂, path₁.copy image pData srcDesc pSrcRect = .ok b₁ ∧
      path₂.copy image pData srcDesc pSrcRect = .ok b₂ ∧
      ∀ c : Cell, c.plane < 3 → c.line < image.m_ImageDesc.m_Height.toNat →
        c.col < image.m_ImageDesc.m_Width.toNat →
        b₁.byteAt (image.m_ImageDesc.planar.place c) = b₂.byteAt (image.m_ImageDesc.planar.place c)

/-- The last sample of the rectangle, in the last plane, is in the buffer. -/
def planarInside (image : Ti_Image) (pSrcRect : RECT) : Prop :=
  image.m_ImageDesc.planar.place ⟨2, pSrcRect.bottom.toNat - 1, pSrcRect.right.toNat - 1⟩ <
    image.m_InternalBuffer.m_BufferSize

/-- What the copy of a rectangle that is not empty rests on. -/
structure PlanarFits (image : Ti_Image) (pData : Block) (srcDesc : ImageDesc) (r : RECT) :
    Prop where
  left : r.left.toNat < r.right.toNat
  top : r.top.toNat < r.bottom.toNat
  right_src : r.right.toNat ≤ srcDesc.m_Width.toNat
  right_dst : r.right.toNat ≤ image.m_ImageDesc.m_Width.toNat
  bottom_src : r.bottom.toNat ≤ srcDesc.m_Height.toNat
  bottom_dst : r.bottom.toNat ≤ image.m_ImageDesc.m_Height.toNat
  src : 3 * srcDesc.planar.plane ≤ pData.size
  src_lt : pData.size < 2 ^ 32
  dst : planarInside image r
  dst_lt : image.m_InternalBuffer.m_BufferSize < 2 ^ 32

/-- Three copies of the same length, none of which leaves a block. -/
theorem copyPlanes_ok (len : Nat) (s : PlanarRow)
    (hY : s.pSrcY + len ≤ pData.size ∧ s.pDstY + len ≤ s.buffer.m_BufferSize)
    (hU : s.pSrcU + len ≤ pData.size ∧ s.pDstU + len ≤ s.buffer.m_BufferSize)
    (hV : s.pSrcV + len ≤ pData.size ∧ s.pDstV + len ≤ s.buffer.m_BufferSize) :
    copyPlanes pData len s = .ok { s with
      buffer := { s.buffer with
        m_Buffer := ((s.buffer.m_Buffer.write s.pDstY (pData.bytes.read s.pSrcY len)).write s.pDstU
          (pData.bytes.read s.pSrcU len)).write s.pDstV (pData.bytes.read s.pSrcV len) } } := by
  unfold copyPlanes
  rw [DataBuffer.memcpy_spec _ _ _ _ _ hY.1 hY.2]
  simp only [bind, Except.bind]
  rw [DataBuffer.memcpy_spec _ _ _ _ _ hU.1 (by exact hU.2)]
  simp only
  rw [DataBuffer.memcpy_spec _ _ _ _ _ hV.1 (by exact hV.2)]
  rfl

/-- The loop over the rows, `i` rows below the top. -/
structure PlanarRow.At (image : Ti_Image) (pData : Block) (srcDesc : ImageDesc) (r : RECT) (i : Nat)
    (s : PlanarRow) : Prop where
  pDstY : s.pDstY = image.m_ImageDesc.planar.place ⟨0, r.top.toNat + i, r.left.toNat⟩
  pSrcY : s.pSrcY = srcDesc.planar.place ⟨0, r.top.toNat + i, r.left.toNat⟩
  pDstU : s.pDstU = image.m_ImageDesc.planar.place ⟨1, r.top.toNat + i, r.left.toNat⟩
  pSrcU : s.pSrcU = srcDesc.planar.place ⟨1, r.top.toNat + i, r.left.toNat⟩
  pDstV : s.pDstV = image.m_ImageDesc.planar.place ⟨2, r.top.toNat + i, r.left.toNat⟩
  pSrcV : s.pSrcV = srcDesc.planar.place ⟨2, r.top.toNat + i, r.left.toNat⟩
  size : s.buffer.m_BufferSize = image.m_InternalBuffer.m_BufferSize
  copied : Blit image.m_ImageDesc.planar.place srcDesc.planar.place pData.bytes
    image.m_InternalBuffer.m_Buffer s.buffer.m_Buffer
    fun c => c.plane < 3 ∧ r.Has c ∧ c.line < r.top.toNat + i

theorem planar_place (desc : ImageDesc) (p y x : Nat) :
    desc.planar.place ⟨p, y, x⟩ =
      p * (desc.m_Height.toNat * desc.m_Width.toNat) + (y * desc.m_Width.toNat + x) := rfl

/-- The pointers before the first row. -/
theorem PlanarFits.start (h : PlanarFits image pData srcDesc pSrcRect) :
    (planarStart image srcDesc pSrcRect).At image pData srcDesc pSrcRect 0 := by
  have hleft := h.left
  have htop := h.top
  have hsrc := h.src
  have hsrclt := h.src_lt
  have hdst := h.dst
  have hdstlt := h.dst_lt
  have hsrcline := line_add_le (Nat.le_trans (Nat.le_of_lt hleft) h.right_src)
    (Nat.lt_of_lt_of_le htop h.bottom_src)
  have hdstline : pSrcRect.top.toNat * image.m_ImageDesc.m_Width.toNat ≤
      (pSrcRect.bottom.toNat - 1) * image.m_ImageDesc.m_Width.toNat :=
    Nat.mul_le_mul_right _ (by omega)
  simp only [planarInside, planar_place] at hdst
  simp only [ImageDesc.planar] at hsrc
  have hsrcplane : (srcDesc.m_Width * srcDesc.m_Height).toNat =
      srcDesc.m_Height.toNat * srcDesc.m_Width.toNat := by
    rw [BitVec.toNat_mul_of_lt (by rw [Nat.mul_comm]; omega), Nat.mul_comm]
  have hdstplane : (image.m_ImageDesc.m_Width * image.m_ImageDesc.m_Height).toNat =
      image.m_ImageDesc.m_Height.toNat * image.m_ImageDesc.m_Width.toNat := by
    rw [BitVec.toNat_mul_of_lt (by rw [Nat.mul_comm]; omega), Nat.mul_comm]
  have hsrcmul : (pSrcRect.top * srcDesc.m_Width).toNat =
      pSrcRect.top.toNat * srcDesc.m_Width.toNat := BitVec.toNat_mul_of_lt (by omega)
  have hdstmul : (pSrcRect.top * image.m_ImageDesc.m_Width).toNat =
      pSrcRect.top.toNat * image.m_ImageDesc.m_Width.toNat := BitVec.toNat_mul_of_lt (by omega)
  have hsrcY : (pSrcRect.left + pSrcRect.top * srcDesc.m_Width).toNat =
      pSrcRect.top.toNat * srcDesc.m_Width.toNat + pSrcRect.left.toNat := by
    rw [BitVec.toNat_add_of_lt (by rw [hsrcmul]; omega), hsrcmul, Nat.add_comm]
  have hdstY : (pSrcRect.top * image.m_ImageDesc.m_Width + pSrcRect.left).toNat =
      pSrcRect.top.toNat * image.m_ImageDesc.m_Width.toNat + pSrcRect.left.toNat := by
    rw [BitVec.toNat_add_of_lt (by rw [hdstmul]; omega), hdstmul]
  refine ⟨?_, ?_, ?_, ?_, ?_, ?_, rfl, blit_nil ?_⟩
  · simp only [planarStart, hdstY, planar_place, Nat.add_zero]
    omega
  · simp only [planarStart, hsrcY, planar_place, Nat.add_zero]
    omega
  · simp only [planarStart, hdstY, hdstplane, planar_place, Nat.add_zero]
    omega
  · simp only [planarStart, hsrcY, hsrcplane, planar_place, Nat.add_zero]
    omega
  · simp only [planarStart, hdstY, hdstplane, planar_place, Nat.add_zero]
    omega
  · simp only [planarStart, hsrcY, hsrcplane, planar_place, Nat.add_zero]
    omega
  · rintro c ⟨-, hc, hlt⟩
    exact absurd hc.1 (by omega)

theorem PlanarFits.has (h : PlanarFits image pData srcDesc pSrcRect) {c : Cell}
    (hc : pSrcRect.Has c) :
    image.m_ImageDesc.planar.Has c := by
  obtain ⟨-, hbottom, -, hright⟩ := hc
  have hcol : c.col < image.m_ImageDesc.m_Width.toNat := Nat.lt_of_lt_of_le hright h.right_dst
  exact ⟨hcol, line_add_le (Nat.succ_le_of_lt hcol) (Nat.lt_of_lt_of_le hbottom h.bottom_dst)⟩

/-- A row of the rectangle is in the source. -/
theorem PlanarFits.src_le (h : PlanarFits image pData srcDesc pSrcRect) {p y : Nat} (hp : p < 3)
    (hy : y < pSrcRect.bottom.toNat) :
    srcDesc.planar.place ⟨p, y, pSrcRect.left.toNat⟩ + (pSrcRect.right.toNat - pSrcRect.left.toNat) ≤
      pData.size :=
  Nat.le_trans (Layout.place_add_le (Nat.le_of_lt h.left) h.right_src (Nat.lt_of_lt_of_le hy h.bottom_src)
    (Nat.le_refl _) hp) h.src

/-- A row of the rectangle is in the buffer. -/
theorem PlanarFits.dst_le (h : PlanarFits image pData srcDesc pSrcRect) {p y : Nat} (hp : p < 3)
    (hy : y < pSrcRect.bottom.toNat) :
    image.m_ImageDesc.planar.place ⟨p, y, pSrcRect.left.toNat⟩ +
      (pSrcRect.right.toNat - pSrcRect.left.toNat) ≤ image.m_InternalBuffer.m_BufferSize := by
  have hleft := h.left
  have hdst := h.dst
  simp only [planarInside, planar_place] at hdst ⊢
  have hplane : p * (image.m_ImageDesc.m_Height.toNat * image.m_ImageDesc.m_Width.toNat) ≤
      2 * (image.m_ImageDesc.m_Height.toNat * image.m_ImageDesc.m_Width.toNat) :=
    Nat.mul_le_mul_right _ (by omega)
  have hline : y * image.m_ImageDesc.m_Width.toNat ≤
      (pSrcRect.bottom.toNat - 1) * image.m_ImageDesc.m_Width.toNat :=
        Nat.mul_le_mul_right _ (by omega)
  omega

/-- **A row of each plane.** -/
theorem PlanarFits.row (h : PlanarFits image pData srcDesc pSrcRect) {i : Nat}
    (hi : pSrcRect.top.toNat + i < pSrcRect.bottom.toNat) {s : PlanarRow}
    (hs : s.At image pData srcDesc pSrcRect i) :
    ∃ t, planarRow image pData srcDesc pSrcRect s = .ok t ∧
      t.At image pData srcDesc pSrcRect (i + 1) := by
  have hlen : (pSrcRect.right - pSrcRect.left).toNat = pSrcRect.right.toNat - pSrcRect.left.toNat :=
    BitVec.toNat_sub_of_le (Nat.le_of_lt h.left)
  have hcopy : copyPlanes pData (pSrcRect.right.toNat - pSrcRect.left.toNat) s = _ :=
    copyPlanes_ok _ s
    (by rw [hs.pSrcY, hs.pDstY, hs.size]; exact ⟨h.src_le (by omega) hi, h.dst_le (by omega) hi⟩)
    (by rw [hs.pSrcU, hs.pDstU, hs.size]; exact ⟨h.src_le (by omega) hi, h.dst_le (by omega) hi⟩)
    (by rw [hs.pSrcV, hs.pDstV, hs.size]; exact ⟨h.src_le (by omega) hi, h.dst_le (by omega) hi⟩)
  have hin :
    ∀ {p} c, Cell.In p (pSrcRect.top.toNat + i) pSrcRect.left.toNat pSrcRect.right.toNat c →
      image.m_ImageDesc.planar.Has c := by
    rintro p c ⟨-, hline, hlo, hhi⟩
    exact h.has ⟨by omega, by omega, hlo, hhi⟩
  -- `Y`, `U` and `V`, each behind what has been copied
  have hY := hs.copied.line (p := 0) (fun c hc => h.has hc.2.1) hin
  have hU := hY.line (p := 1) (fun c hc => hc.elim (fun hc => h.has hc.2.1) (hin c)) hin
  have hV := hU.line (p := 2)
    (fun c hc => hc.elim (fun hc => hc.elim (fun hc => h.has hc.2.1) (hin c)) (hin c)) hin
  rw [← hs.pDstY, ← hs.pSrcY, ← hs.pDstU, ← hs.pSrcU, ← hs.pDstV, ← hs.pSrcV] at hV
  have hnext : ∀ (desc : ImageDesc) (p : Nat),
      desc.planar.place ⟨p, pSrcRect.top.toNat + i, pSrcRect.left.toNat⟩ + desc.m_Width.toNat =
        desc.planar.place ⟨p, pSrcRect.top.toNat + (i + 1), pSrcRect.left.toNat⟩ := by
    intro desc p
    rw [planar_place, planar_place, ← Nat.add_assoc pSrcRect.top.toNat i 1, Nat.add_one_mul]
    omega
  rw [planarRow, hlen, hcopy]
  refine ⟨_, rfl, ⟨?_, ?_, ?_, ?_, ?_, ?_, hs.size, hV.congr ?_⟩⟩
  · rw [← hnext, ← hs.pDstY]
  · rw [← hnext, ← hs.pSrcY]
  · rw [← hnext, ← hs.pDstU]
  · rw [← hnext, ← hs.pSrcU]
  · rw [← hnext, ← hs.pDstV]
  · rw [← hnext, ← hs.pSrcV]
  · intro c
    unfold Cell.In RECT.Has
    have hleft := h.left
    omega

/-- **The loop over the rows.** -/
theorem PlanarFits.rows (h : PlanarFits image pData srcDesc pSrcRect) (hr : pSrcRect.Ordered) :
    ∃ buffer, PlanarPath.copy image pData srcDesc pSrcRect .rows = .ok buffer ∧
      buffer.m_BufferSize = image.m_InternalBuffer.m_BufferSize ∧
      Blit image.m_ImageDesc.planar.place srcDesc.planar.place pData.bytes
        image.m_InternalBuffer.m_Buffer buffer.m_Buffer fun c => c.plane < 3 ∧ pSrcRect.Has c := by
  have htop := h.top
  obtain ⟨s, hs, hat⟩ := upTo_ok (n := rowCount pSrcRect) (planarRow image pData srcDesc pSrcRect)
    (PlanarRow.At image pData srcDesc pSrcRect) h.start
    (by
      intro i s hi hs
      rw [hr.rowCount] at hi
      exact h.row (by omega) hs)
  rw [hr.rowCount] at hat
  refine ⟨s.buffer, congrArg (Except.map PlanarRow.buffer) hs, hat.size, hat.copied.congr fun c => ?_⟩
  unfold RECT.Has
  omega

/-- Whole planes. -/
theorem PlanarFits.planes (h : PlanarFits image pData srcDesc pSrcRect)
    (hfull : fullWidth image srcDesc pSrcRect) :
    ∃ buffer, PlanarPath.copy image pData srcDesc pSrcRect .fullWidth = .ok buffer ∧
      buffer.m_BufferSize = image.m_InternalBuffer.m_BufferSize ∧
      Blit image.m_ImageDesc.planar.place srcDesc.planar.place pData.bytes
        image.m_InternalBuffer.m_Buffer buffer.m_Buffer fun c => c.plane < 3 ∧ pSrcRect.Has c := by
  obtain ⟨htop, hleft, hwidth, -, hwidth', hheight, -⟩ := hfull
  have hstart := h.start
  have hsrc := h.src
  have hdst := h.dst
  have hbottom := Nat.mul_le_mul_right image.m_ImageDesc.m_Width.toNat h.bottom_dst
  have hpos := h.top
  have hwidthpos := h.left
  have hfirst : pSrcRect.top.toNat + 0 = 0 ∧ pSrcRect.left.toNat = 0 := by simp [htop, hleft]
  -- both sides have lines of one length, and all lines of the source are copied
  have hsame : srcDesc.m_Width.toNat = image.m_ImageDesc.m_Width.toNat := by rw [← hwidth', hwidth]
  have hlines : srcDesc.m_Height.toNat = pSrcRect.bottom.toNat := by rw [hheight]
  have hright : pSrcRect.right.toNat = image.m_ImageDesc.m_Width.toNat := by rw [hwidth]
  simp only [ImageDesc.planar, hsame, hlines] at hsrc
  simp only [planarInside, planar_place] at hdst
  have hlast : (pSrcRect.bottom.toNat - 1) * image.m_ImageDesc.m_Width.toNat +
      image.m_ImageDesc.m_Width.toNat =
        pSrcRect.bottom.toNat * image.m_ImageDesc.m_Width.toNat := by
    rw [← Nat.add_one_mul, Nat.sub_add_cancel (by omega)]
  have hlen : (pSrcRect.right * pSrcRect.bottom).toNat =
      pSrcRect.bottom.toNat * image.m_ImageDesc.m_Width.toNat := by
    have hlt := h.src_lt
    rw [BitVec.toNat_mul_of_lt (by rw [hright, Nat.mul_comm]; omega), hright, Nat.mul_comm]
  have hsrcle : ∀ p < 3, srcDesc.planar.place ⟨p, 0, 0⟩ +
      pSrcRect.bottom.toNat * image.m_ImageDesc.m_Width.toNat ≤ pData.size := by
    intro p hp
    have hplane :=
      line_add_le (Nat.le_refl (pSrcRect.bottom.toNat * image.m_ImageDesc.m_Width.toNat)) hp
    simp only [planar_place, hsame, hlines]
    omega
  have hdstle : ∀ p < 3, image.m_ImageDesc.planar.place ⟨p, 0, 0⟩ +
      pSrcRect.bottom.toNat * image.m_ImageDesc.m_Width.toNat ≤ image.m_InternalBuffer.m_BufferSize := by
    intro p hp
    have hplane : p * (image.m_ImageDesc.m_Height.toNat * image.m_ImageDesc.m_Width.toNat) ≤
      2 * (image.m_ImageDesc.m_Height.toNat * image.m_ImageDesc.m_Width.toNat) :=
        Nat.mul_le_mul_right _ (by omega)
    simp only [planar_place]
    omega
  obtain ⟨hdY, hsY, hdU, hsU, hdV, hsV, -, hnone⟩ := hstart
  rw [hfirst.1, hfirst.2] at hdY hsY hdU hsU hdV hsV
  have hcopy := copyPlanes_ok (pSrcRect.bottom.toNat * image.m_ImageDesc.m_Width.toNat)
    (planarStart image srcDesc pSrcRect)
    (by rw [hsY, hdY]; exact ⟨hsrcle 0 (by omega), hdstle 0 (by omega)⟩)
    (by rw [hsU, hdU]; exact ⟨hsrcle 1 (by omega), hdstle 1 (by omega)⟩)
    (by rw [hsV, hdV]; exact ⟨hsrcle 2 (by omega), hdstle 2 (by omega)⟩)
  have hhas : ∀ {p} (c : Cell), c.plane = p ∧ c.line < pSrcRect.bottom.toNat ∧
      c.col < image.m_ImageDesc.planar.stride → image.m_ImageDesc.planar.Has c := by
    rintro p c ⟨-, hline, hcol⟩
    have hle := line_add_le (Nat.succ_le_of_lt hcol) (Nat.lt_of_lt_of_le hline h.bottom_dst)
    exact ⟨hcol, hle⟩
  have hY :=
    hnone.lines (p := 0) (n := pSrcRect.bottom.toNat) hsame hbottom (fun c hc => h.has hc.2.1)
  have hU := hY.lines (p := 1) (n := pSrcRect.bottom.toNat) hsame hbottom
    (fun c hc => hc.elim (fun hc => h.has hc.2.1) (hhas c))
  have hV := hU.lines (p := 2) (n := pSrcRect.bottom.toNat) hsame hbottom
    (fun c hc => hc.elim (fun hc => hc.elim (fun hc => h.has hc.2.1) (hhas c)) (hhas c))
  rw [← hdY, ← hsY, ← hdU, ← hsU, ← hdV, ← hsV] at hV
  rw [← hlen] at hcopy
  refine ⟨_, congrArg (Except.map PlanarRow.buffer) hcopy, rfl, ?_⟩
  rw [hlen]
  refine hV.congr fun c => ?_
  unfold RECT.Has
  simp only [ImageDesc.planar, htop, hleft, hright]
  simp
  omega

/-- The rectangle has been copied, sample by sample. -/
theorem PlanarFits.samples (h : PlanarFits image pData srcDesc pSrcRect) {buffer : DataBuffer}
    (hsize : buffer.m_BufferSize = image.m_InternalBuffer.m_BufferSize)
    (hblit : Blit image.m_ImageDesc.planar.place srcDesc.planar.place pData.bytes
      image.m_InternalBuffer.m_Buffer buffer.m_Buffer fun c => c.plane < 3 ∧ pSrcRect.Has c) :
    SamplesCopied image.m_ImageDesc pData srcDesc pSrcRect image.m_InternalBuffer buffer where
  size := hsize
  inside := by
    intro c hp hc
    have hle := h.dst_le hp hc.2.1
    have hlo := hc.2.2.1
    have hhi := hc.2.2.2
    have hlt : image.m_ImageDesc.planar.place c < buffer.m_BufferSize := by
      simp only [Layout.place] at hle ⊢
      omega
    rw [DataBuffer.byteAt, if_pos hlt, hblit.copied c ⟨hp, hc⟩]
  outside := by
    intro c hp hline hcol hout
    have hhas : image.m_ImageDesc.planar.Has c := ⟨hcol, line_add_le (Nat.succ_le_of_lt hcol) hline⟩
    have hsame : buffer.m_Buffer (image.m_ImageDesc.planar.place c) =
        image.m_InternalBuffer.m_Buffer (image.m_ImageDesc.planar.place c) := by
      refine hblit.frame _ fun d hd heq => hout ?_
      rw [← Layout.place_inj (h.has hd.2) hhas heq]
      exact hd.2
    rw [DataBuffer.byteAt, DataBuffer.byteAt, hsize, hsame]

/-- An image of three planes needs no more than its stride and its height. -/
theorem planar_le (hsrc : pData.Holds srcDesc) (hfmt : srcDesc.m_PixelFormat = .TI_FORMAT_I444) :
    3 * srcDesc.planar.plane ≤ (srcDesc.m_Stride * srcDesc.m_Height).toNat ∧
      (srcDesc.m_Stride * srcDesc.m_Height).toNat ≤ pData.size := by
  have hline := hsrc.line_le
  have hsize := hsrc.size
  have hlt := hsrc.size_lt
  rw [hfmt, show (ImageDesc.GetBytesPerPixel .TI_FORMAT_I444).toNat = 3 from rfl] at hline
  have hle := Nat.mul_le_mul_left srcDesc.m_Height.toNat hline
  rw [← Nat.mul_assoc, Nat.mul_comm _ 3] at hle
  rw [BitVec.toNat_mul_of_lt (by rw [Nat.mul_comm]; omega), Nat.mul_comm srcDesc.m_Stride.toNat]
  exact ⟨hle, hsize⟩

/-- The whole frame at once, padding and all. -/
theorem PlanarFits.frame (h : PlanarFits image pData srcDesc pSrcRect) (himage : image.SetUp)
    (hsrc : pData.Holds srcDesc) (hfmt : srcDesc.m_PixelFormat = .TI_FORMAT_I444)
    (hfull : fullFrame image srcDesc pSrcRect) :
    ∃ buffer, PlanarPath.copy image pData srcDesc pSrcRect .fullFrame = .ok buffer ∧
      SamplesCopied image.m_ImageDesc pData srcDesc pSrcRect image.m_InternalBuffer buffer := by
  obtain ⟨htop, hleft, hwidth, hheight, hwidth', hheight', hstride⟩ := hfull
  obtain ⟨hplanes, hsize⟩ := planar_le hsrc hfmt
  have hbuffer := himage.size
  have hfirst : pSrcRect.top.toNat = 0 ∧ pSrcRect.left.toNat = 0 := by simp [htop, hleft]
  have hlayout : srcDesc.planar = image.m_ImageDesc.planar := by
    unfold ImageDesc.planar
    rw [← hwidth, ← hwidth', ← hheight, ← hheight']
  rw [← hheight', hheight, hstride] at hplanes hsize
  rw [hlayout] at hplanes
  have hdY := h.start.pDstY
  have hsY := h.start.pSrcY
  rw [hfirst.1, hfirst.2, planar_place] at hdY hsY
  simp only [Nat.zero_mul, Nat.add_zero] at hdY hsY
  have hcopy : PlanarPath.copy image pData srcDesc pSrcRect .fullFrame = .ok _ :=
    DataBuffer.memcpy_spec _ _ _ _ _ (by rw [hsY]; omega) (by rw [hdY]; omega)
  refine ⟨_, hcopy, rfl, ?_, ?_⟩
  · intro c hp hc
    have hhas := h.has hc
    have hlt : image.m_ImageDesc.planar.place c < 3 * image.m_ImageDesc.planar.plane :=
      line_add_le (Nat.succ_le_of_lt hhas.2) hp
    rw [DataBuffer.byteAt, if_pos (show _ < image.m_InternalBuffer.m_BufferSize by omega), hlayout]
    show some (Mem.write _ _ _ _) = _
    rw [hdY, hsY, Mem.write_read_apply, if_pos (by omega), Nat.zero_add, Nat.sub_zero]
  · intro c _ hline hcol hout
    refine absurd ⟨?_, ?_, ?_, ?_⟩ hout
    · omega
    · rwa [hheight]
    · omega
    · rwa [hwidth]

/-- For an empty rectangle every way does nothing. -/
theorem planar_empty (himage : image.SetUp)
    (hfmt : image.m_ImageDesc.m_PixelFormat = .TI_FORMAT_I444)
    (hr : pSrcRect.Ordered) (hempty : pSrcRect.Empty) (path : PlanarPath)
    (hpath : path.Applies image srcDesc pSrcRect) :
    path.copy image pData srcDesc pSrcRect = .ok image.m_InternalBuffer := by
  cases path with
  | fullFrame =>
    obtain ⟨htop, hleft, hwidth, hheight, -⟩ := hpath
    have hlen : image.m_ImageDesc.m_Stride * image.m_ImageDesc.m_Height = 0 := by
      rcases hempty with hcols | hlines
      · rw [himage.stride, hfmt, ← hwidth, ← hcols, hleft]
        exact BitVec.zero_mul
      · rw [← hheight, ← hlines, htop]
        exact BitVec.mul_zero
    show image.m_InternalBuffer.memcpy _ _ _ (image.m_ImageDesc.m_Stride * _).toNat = _
    rw [hlen]
    exact DataBuffer.memcpy_zero _ _ _ _
  | fullWidth =>
    obtain ⟨htop, hleft, -⟩ := hpath
    have hlen : pSrcRect.right * pSrcRect.bottom = 0 := by
      rcases hempty with hcols | hlines
      · rw [← hcols, hleft]
        exact BitVec.zero_mul
      · rw [← hlines, htop]
        exact BitVec.mul_zero
    show (copyPlanes pData (pSrcRect.right * pSrcRect.bottom).toNat _).map PlanarRow.buffer = _
    rw [hlen]
    rfl
  | rows =>
    obtain ⟨s, hs, hbuffer⟩ :=
      upTo_ok (n := rowCount pSrcRect) (s := planarStart image srcDesc pSrcRect)
      (planarRow image pData srcDesc pSrcRect) (fun _ s => s.buffer = image.m_InternalBuffer) rfl
      (by
        intro i s hi hs
        rcases hempty with hcols | hlines
        · rw [planarRow, hcols, BitVec.sub_self]
          exact ⟨_, rfl, hs⟩
        · rw [hr.rowCount, hlines] at hi
          omega)
    rw [← hbuffer]
    exact congrArg (Except.map PlanarRow.buffer) hs

/-- What an empty rectangle leaves. -/
theorem samplesCopied_refl (hr : pSrcRect.Empty) (b : DataBuffer) :
    SamplesCopied image.m_ImageDesc pData srcDesc pSrcRect b b where
  size := rfl
  inside := fun _ _ hc => absurd hr hc.not_empty
  outside := fun _ _ _ _ _ => rfl

/-- `CopyFrom` takes one of the ways that are for the rectangle. -/
theorem copyPlanar_path (pData : Block) (srcDesc : ImageDesc) (pSrcRect : RECT)
    (hpos : 0 < image.m_InternalBuffer.m_BufferSize) :
    ∃ path : PlanarPath, path.Applies image srcDesc pSrcRect ∧
      copyPlanar image pData srcDesc pSrcRect = path.copy image pData srcDesc pSrcRect := by
  unfold copyPlanar DataBuffer.GetPtrForWriting
  rw [if_pos hpos]
  simp only [bind, Except.bind]
  split_ifs with hframe hwidth
  · exact ⟨.fullFrame, hframe, rfl⟩
  · exact ⟨.fullWidth, hwidth, rfl⟩
  · exact ⟨.rows, trivial, rfl⟩

theorem copyFrom_planar (hin : inBounds image srcDesc pSrcRect)
    (hfmt : srcDesc.m_PixelFormat = .TI_FORMAT_I444)
    (hfmt' : image.m_ImageDesc.m_PixelFormat = .TI_FORMAT_I444) :
    CopyFrom fuel mmx image pData srcDesc pSrcRect =
      some ((copyPlanar image pData srcDesc pSrcRect).map fun buffer =>
        { image with m_InternalBuffer := buffer }) := by
  unfold CopyFrom
  rw [if_neg (not_not.mpr hin), if_pos (hfmt.trans hfmt'.symm), if_pos hfmt']

/-- **Where the buffer reaches**, every way copies the rectangle. -/
theorem planar_paths (himage : image.SetUp) (hsrc : pData.Holds srcDesc)
    (hfmt : srcDesc.m_PixelFormat = .TI_FORMAT_I444)
    (hfmt' : image.m_ImageDesc.m_PixelFormat = .TI_FORMAT_I444) (hr : pSrcRect.Ordered)
    (hin : inBounds image srcDesc pSrcRect) (hreach : pSrcRect.Empty ∨ planarInside image pSrcRect)
    (path : PlanarPath) (hpath : path.Applies image srcDesc pSrcRect) :
    ∃ buffer, path.copy image pData srcDesc pSrcRect = .ok buffer ∧
      SamplesCopied image.m_ImageDesc pData srcDesc pSrcRect image.m_InternalBuffer buffer := by
  by_cases hempty : pSrcRect.Empty
  · exact ⟨_, planar_empty himage hfmt' hr hempty path hpath, samplesCopied_refl hempty _⟩
  · obtain ⟨hleft, htop⟩ := hr.of_not_empty hempty
    obtain ⟨-, -, hrs, hbs, hrd, hbd⟩ := hin
    obtain ⟨hplanes, hsize⟩ := planar_le hsrc hfmt
    have hfits : PlanarFits image pData srcDesc pSrcRect :=
      ⟨hleft, htop, hrs, hrd, hbs, hbd, Nat.le_trans hplanes hsize, hsrc.size_lt,
        hreach.resolve_left hempty, himage.size_lt⟩
    cases path with
    | fullFrame => exact hfits.frame himage hsrc hfmt hpath
    | fullWidth =>
      obtain ⟨buffer, hcopy, hsize, hblit⟩ := hfits.planes hpath
      exact ⟨buffer, hcopy, hfits.samples hsize hblit⟩
    | rows =>
      obtain ⟨buffer, hcopy, hsize, hblit⟩ := hfits.rows hr
      exact ⟨buffer, hcopy, hfits.samples hsize hblit⟩

/-- A sample that is not in the buffer is not copied. -/
theorem SamplesCopied.inside_of_not_empty {b b' : DataBuffer}
    (h : SamplesCopied image.m_ImageDesc pData srcDesc pSrcRect b b') (hr : pSrcRect.Ordered)
    (hempty : ¬ pSrcRect.Empty) :
    image.m_ImageDesc.planar.place ⟨2, pSrcRect.bottom.toNat - 1, pSrcRect.right.toNat - 1⟩ <
      b.m_BufferSize := by
  obtain ⟨hleft, htop⟩ := hr.of_not_empty hempty
  have hlast :=
    h.inside ⟨2, pSrcRect.bottom.toNat - 1, pSrcRect.right.toNat - 1⟩ (by dsimp only; omega)
    ⟨by dsimp only; omega, by dsimp only; omega, by dsimp only; omega, by dsimp only; omega⟩
  rw [DataBuffer.byteAt, h.size] at hlast
  split_ifs at hlast with hlt
  exact hlt

/-- **Planar images.** The rectangle is copied, and every way that is for it copies the same,
exactly when the destination has a buffer and the last sample of the rectangle is in it. -/
theorem planar_copied_iff (fuel : Nat) (mmx : Mmx) (himage : image.SetUp)
    (hsrc : pData.Holds srcDesc)
    (hfmt : srcDesc.m_PixelFormat = .TI_FORMAT_I444)
    (hfmt' : image.m_ImageDesc.m_PixelFormat = .TI_FORMAT_I444) (hr : pSrcRect.Ordered)
    (hin : inBounds image srcDesc pSrcRect) :
    PlanarCopied fuel mmx image pData srcDesc pSrcRect ↔
      0 < image.m_InternalBuffer.m_BufferSize ∧ (pSrcRect.Empty ∨ planarInside image pSrcRect) := by
  constructor
  · rintro ⟨⟨buffer, hcopy, hcopied⟩, -⟩
    constructor
    · by_contra hzero
      rw [copyFrom_planar hin hfmt hfmt', copyPlanar, DataBuffer.GetPtrForWriting,
        if_neg hzero] at hcopy
      cases hcopy
    · by_cases hempty : pSrcRect.Empty
      · exact Or.inl hempty
      · exact Or.inr (hcopied.inside_of_not_empty hr hempty)
  · rintro ⟨hpos, hreach⟩
    have hpaths := planar_paths himage hsrc hfmt hfmt' hr hin hreach
    constructor
    · obtain ⟨path, happlies, hpath⟩ := copyPlanar_path pData srcDesc pSrcRect hpos
      obtain ⟨buffer, hcopy, hcopied⟩ := hpaths path happlies
      refine ⟨buffer, ?_, hcopied⟩
      rw [copyFrom_planar hin hfmt hfmt', hpath, hcopy]
      rfl
    · intro path₁ path₂ happlies₁ happlies₂
      obtain ⟨b₁, hcopy₁, hcopied₁⟩ := hpaths path₁ happlies₁
      obtain ⟨b₂, hcopy₂, hcopied₂⟩ := hpaths path₂ happlies₂
      refine ⟨b₁, b₂, hcopy₁, hcopy₂, fun c hp hline hcol => ?_⟩
      by_cases hc : pSrcRect.Has c
      · rw [hcopied₁.inside c hp hc, hcopied₂.inside c hp hc]
      · rw [hcopied₁.outside c hp hline hcol hc, hcopied₂.outside c hp hline hcol hc]

/-- The last sample is in a buffer that is as large as `Setup` meant it to be. -/
theorem planarInside_of_lt (himage : image.SetUp) (hr : pSrcRect.Ordered)
    (hempty : ¬ pSrcRect.Empty)
    (hin : inBounds image srcDesc pSrcRect)
    (hline : image.m_ImageDesc.m_Width.toNat * 3 ≤ image.m_ImageDesc.m_Stride.toNat)
    (hlt : image.m_ImageDesc.m_Stride.toNat * image.m_ImageDesc.m_Height.toNat < 2 ^ 32) :
    planarInside image pSrcRect := by
  obtain ⟨hleft, htop⟩ := hr.of_not_empty hempty
  obtain ⟨-, -, -, -, hrd, hbd⟩ := hin
  have hrd' : pSrcRect.right.toNat ≤ image.m_ImageDesc.m_Width.toNat := hrd
  have hbd' : pSrcRect.bottom.toNat ≤ image.m_ImageDesc.m_Height.toNat := hbd
  have hsize := himage.size
  rw [BitVec.toNat_mul_of_lt hlt] at hsize
  have hplanes := Nat.mul_le_mul_left image.m_ImageDesc.m_Height.toNat hline
  rw [← Nat.mul_assoc, Nat.mul_comm _ 3, Nat.mul_comm _ image.m_ImageDesc.m_Stride.toNat] at hplanes
  have hlast : (pSrcRect.bottom.toNat - 1) * image.m_ImageDesc.m_Width.toNat +
      (pSrcRect.right.toNat - 1) < image.m_ImageDesc.m_Height.toNat * image.m_ImageDesc.m_Width.toNat :=
    (line_lt_iff (by omega)).mpr (by omega)
  simp only [planarInside, planar_place]
  omega

/-- Two lines of three samples, from an image of three lines into one of six. -/
theorem planar_copied_iff_lines :
    PlanarCopied 0 ImageProcess.clearedMmx
      ⟨⟨4, 6, 12, true, .TI_FORMAT_I444⟩, ⟨fun _ => 0, 72, true, 0⟩⟩
      ⟨fun i => UInt8.ofNat (i + 1), 72⟩ ⟨8, 3, 24, true, .TI_FORMAT_I444⟩ ⟨1, 1, 4, 3⟩ :=
  (planar_copied_iff 0 ImageProcess.clearedMmx ⟨rfl, by decide, by decide⟩
    ⟨rfl, by decide, by decide, show 72 < 2 ^ 32 by decide⟩
    rfl rfl ⟨by decide, by decide, by decide, by decide⟩ (by decide)).mpr
    ⟨by decide, Or.inr (show _ < 72 by decide)⟩

/-- A sample of each plane, and a byte of padding. -/
def oneSample : ImageDesc := ⟨1, 1, 4, true, .TI_FORMAT_I444⟩

theorem oneSample_holds (bytes : Mem UInt8) : Block.Holds ⟨bytes, 4⟩ oneSample :=
  ⟨rfl, by decide, Nat.le_refl 4, show 4 < 2 ^ 32 by decide⟩

/-- What `Setup` makes of 43691 samples in 32768 lines: the stride is 131076, and the size wraps. -/
def wrapped : Ti_Image :=
  ⟨⟨43691, 32768, 131076, true, .TI_FORMAT_I444⟩, ⟨fun _ => 0, 131072, true, 0⟩⟩

example (desc : ImageDesc) :
    SetupOf (fun _ _ => 0) ⟨desc, DataBuffer.new⟩ 43691 32768 .TI_FORMAT_I444 = .ok wrapped := rfl

/-- **An image that does not fit its buffer**: the first sample of the second plane is written far
behind the buffer. -/
theorem planar_outside_the_buffer :
    ¬ ∀ (image : Ti_Image) (pData : Block) (srcDesc : ImageDesc) (pSrcRect : RECT), image.SetUp →
      pData.Holds srcDesc → srcDesc.m_PixelFormat = .TI_FORMAT_I444 →
      image.m_ImageDesc.m_PixelFormat = .TI_FORMAT_I444 → pSrcRect.Ordered →
      inBounds image srcDesc pSrcRect →
      PlanarCopied 0 ImageProcess.clearedMmx image pData srcDesc pSrcRect := by
  intro hall
  obtain ⟨⟨buffer, hcopy, -⟩, -⟩ := hall wrapped ⟨fun _ => 1, 4⟩ oneSample ⟨0, 0, 1, 1⟩
    ⟨rfl, by decide, by decide⟩ (oneSample_holds fun _ => 1) rfl rfl
    ⟨by decide, by decide, by decide, by decide⟩ (by decide)
  have hfault : CopyFrom 0 ImageProcess.clearedMmx wrapped ⟨fun _ => 1, 4⟩ oneSample ⟨0, 0, 1, 1⟩ =
      some (.error .outOfBounds) := rfl
  rw [hfault] at hcopy
  cases hcopy

end Ti_Image

end TiraRdp
