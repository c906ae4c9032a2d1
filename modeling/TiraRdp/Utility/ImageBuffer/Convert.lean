import TiraRdp.Utility.ImageBuffer

/-!
# `Ti_Image`: converting to planes

The branch of `Ti_Image::CopyFrom` for a BGRA source and an `I444` image
(`common/utility/private/common/imagebuffer.cpp:89-119`), with the converter that it calls
(`ImageProcess.cpp:254-671`). The converter takes sixteen columns at a time, so `left` and `right`
are first moved apart: `left` to the front, or `right` to the back, or both to the edges of the
destination.

Result: the widened columns contain the rectangle and are in both images, exactly its rows are
converted, and every access is inside, exactly when moving `right` does not leave the source, and
the assembly is not run for no rows (`converts_inside_iff`).
-/

namespace TiraRdp

open Lib Lib.Loop Lib.Simd Lib.Raster ImageProcess

namespace Ti_Image

variable {fuel : Nat} {mmx : Mmx} {image : Ti_Image} {pData : Block} {srcDesc : ImageDesc}
  {pSrcRect : RECT}

/-! ## The columns -/

/-- The four ways to widen `left` and `right`. -/
theorem widened_cases (image : Ti_Image) (hleft : pSrcRect.left.toNat ≤ pSrcRect.right.toNat)
    (hright : pSrcRect.right.toNat ≤ image.m_ImageDesc.m_Width.toNat) :
    let d := (pSrcRect.right.toNat - pSrcRect.left.toNat) % 16
    let left := (widened image pSrcRect).1.toNat
    let right := (widened image pSrcRect).2.toNat
    (d = 0 ∧ left = pSrcRect.left.toNat ∧ right = pSrcRect.right.toNat) ∨
      (d ≠ 0 ∧ 16 - d ≤ pSrcRect.left.toNat ∧ left = pSrcRect.left.toNat - (16 - d) ∧
        right = pSrcRect.right.toNat) ∨
      (d ≠ 0 ∧ pSrcRect.left.toNat < 16 - d ∧
        16 - d ≤ image.m_ImageDesc.m_Width.toNat - pSrcRect.right.toNat ∧
        left = pSrcRect.left.toNat ∧ right = pSrcRect.right.toNat + (16 - d)) ∨
      (d ≠ 0 ∧ pSrcRect.left.toNat < 16 - d ∧
        image.m_ImageDesc.m_Width.toNat - pSrcRect.right.toNat < 16 - d ∧
        left = 0 ∧ right = image.m_ImageDesc.m_Width.toNat) := by
  have hsub : (pSrcRect.right - pSrcRect.left).toNat =
      pSrcRect.right.toNat - pSrcRect.left.toNat := BitVec.toNat_sub_of_le hleft
  have hmod : ((pSrcRect.right - pSrcRect.left) % 16).toNat =
      (pSrcRect.right.toNat - pSrcRect.left.toNat) % 16 := by
    rw [BitVec.toNat_umod, hsub]
    rfl
  have hrest : (16 - (pSrcRect.right - pSrcRect.left) % 16).toNat =
      16 - (pSrcRect.right.toNat - pSrcRect.left.toNat) % 16 := by
    rw [BitVec.toNat_sub_of_le, hmod]
    · rfl
    · rw [BitVec.le_def, hmod]
      exact Nat.le_of_lt (Nat.mod_lt _ (by omega))
  have hspace : (image.m_ImageDesc.m_Width - pSrcRect.right).toNat =
      image.m_ImageDesc.m_Width.toNat - pSrcRect.right.toNat := BitVec.toNat_sub_of_le hright
  have hlt := image.m_ImageDesc.m_Width.isLt
  have hzero : (pSrcRect.right - pSrcRect.left) % 16 = 0 ↔
      (pSrcRect.right.toNat - pSrcRect.left.toNat) % 16 = 0 := by
    rw [← BitVec.toNat_inj, hmod]
    rfl
  unfold widened
  simp only [ge_iff_le, BitVec.le_def, ne_eq, hzero, hrest, hspace]
  split_ifs with hblocks hfront hback
  · left
    exact ⟨hblocks, rfl, rfl⟩
  · right; left
    refine ⟨hblocks, hfront, ?_, rfl⟩
    rw [BitVec.toNat_sub_of_le (by rw [BitVec.le_def, hrest]; exact hfront), hrest]
  · right; right; left
    refine ⟨hblocks, by omega, hback, rfl, ?_⟩
    rw [BitVec.toNat_add_of_lt (by rw [hrest]; omega), hrest]
  · right; right; right
    exact ⟨hblocks, by omega, by omega, rfl, rfl⟩

/-- The number of columns that are converted. -/
def columns (image : Ti_Image) (pSrcRect : RECT) : BitVec 32 :=
  (widened image pSrcRect).2 - (widened image pSrcRect).1

/-- No way that is taken moves `right` out of the source. -/
def widensInside (image : Ti_Image) (srcDesc : ImageDesc) (r : RECT) : Prop :=
  let d := (r.right.toNat - r.left.toNat) % 16
  d = 0 ∨ 16 - d ≤ r.left.toNat ∨
    (16 - d ≤ image.m_ImageDesc.m_Width.toNat - r.right.toNat ∧
      r.right.toNat + (16 - d) ≤ srcDesc.m_Width.toNat) ∨
    (image.m_ImageDesc.m_Width.toNat - r.right.toNat < 16 - d ∧
      image.m_ImageDesc.m_Width.toNat ≤ srcDesc.m_Width.toNat)

/-- There are rows, or there is nothing for the assembly: no columns, or a destination whose width
is taken and is no multiple of sixteen. -/
def hasRows (image : Ti_Image) (r : RECT) : Prop :=
  let d := (r.right.toNat - r.left.toNat) % 16
  r.top.toNat < r.bottom.toNat ∨ r.left = r.right ∨
    (d ≠ 0 ∧ r.left.toNat < 16 - d ∧
      image.m_ImageDesc.m_Width.toNat - r.right.toNat < 16 - d ∧
      image.m_ImageDesc.m_Width.toNat % 16 ≠ 0)

instance : Decidable (widensInside image srcDesc pSrcRect) := inferInstanceAs (Decidable (_ ∨ _))

instance : Decidable (hasRows image pSrcRect) := inferInstanceAs (Decidable (_ ∨ _))

/-! ## What is converted -/

/-- The stores to plane `p`: a value for each pixel of the widened rectangle, inside the plane. -/
structure PlaneConverted (image : Ti_Image) (pData : Block) (srcDesc : ImageDesc)
    (r : RECT) (p : Nat)
    (pDst : BitVec 32) (log : Stores) : Prop where
  rows : ∃ f, Paints image.m_ImageDesc.m_Width (plane f (pSrcBytes image pData srcDesc r) srcDesc.m_Stride)
    (fun i x => i < r.bottom.toNat - r.top.toNat ∧ x < (columns image r).toNat) log
  inside : ∀ e ∈ log, Within image.m_ImageDesc.m_Width image.m_ImageDesc.m_Width.toNat
    image.m_ImageDesc.m_Height.toNat
    (pDst + e.1 - BitVec.ofNat 32 p * (image.m_ImageDesc.m_Width * image.m_ImageDesc.m_Height))

/-- The columns are widened inside both images, the rows of the rectangle and no others are
converted, and everything that is read or written is in the images. -/
structure ConvertsInside (fuel : Nat) (mmx : Mmx) (image : Ti_Image) (pData : Block)
    (srcDesc : ImageDesc) (r : RECT) : Prop where
  writable : image.m_InternalBuffer.GetPtrForWriting 0 = .ok 0
  contains : (widened image r).1 ≤ r.left ∧ r.right ≤ (widened image r).2
  inSource : (widened image r).2 ≤ srcDesc.m_Width
  inDestination : (widened image r).2 ≤ image.m_ImageDesc.m_Width
  converted : ∃ t, conversion fuel mmx image pData srcDesc r = some t ∧
    PlaneConverted image pData srcDesc r 0 (pDstY image r) t.1.y ∧
    PlaneConverted image pData srcDesc r 1 (pDstU image r) t.1.u ∧
    PlaneConverted image pData srcDesc r 2 (pDstV image r) t.1.v
  /-- the four bytes of each pixel -/
  read : ∀ i x k, i < r.bottom.toNat - r.top.toNat → x < (columns image r).toNat → k < 4 →
    Within srcDesc.m_Stride (4 * srcDesc.m_Width.toNat) srcDesc.m_Height.toNat
        (pSrc image srcDesc r + place srcDesc.m_Stride i (4 * x + k)) ∧
      (pSrc image srcDesc r + place srcDesc.m_Stride i (4 * x + k)).toNat < pData.size
  /-- an image that is in its buffer is not left -/
  stored : 3 * image.m_ImageDesc.planar.plane ≤ image.m_InternalBuffer.m_BufferSize →
    ∃ buffer, CopyFrom fuel mmx image pData srcDesc r =
      some (.ok { image with m_InternalBuffer := buffer })

/-- What holds of the columns where they are widened inside the source. -/
structure WidenedInside (image : Ti_Image) (srcDesc : ImageDesc) (r : RECT) : Prop where
  left : (widened image r).1.toNat ≤ r.left.toNat
  right : r.right.toNat ≤ (widened image r).2.toNat
  source : (widened image r).2.toNat ≤ srcDesc.m_Width.toNat
  destination : (widened image r).2.toNat ≤ image.m_ImageDesc.m_Width.toNat
  count : (columns image r).toNat = (widened image r).2.toNat - (widened image r).1.toNat

/-- The rectangle is widened, and stays inside the destination. -/
theorem widened_bounds (hr : pSrcRect.left.toNat ≤ pSrcRect.right.toNat)
    (hright : pSrcRect.right.toNat ≤ image.m_ImageDesc.m_Width.toNat) :
    (widened image pSrcRect).1.toNat ≤ pSrcRect.left.toNat ∧
      pSrcRect.right.toNat ≤ (widened image pSrcRect).2.toNat ∧
      (widened image pSrcRect).2.toNat ≤ image.m_ImageDesc.m_Width.toNat := by
  rcases widened_cases image hr hright with ⟨-, hl, hw⟩ | ⟨-, -, hl, hw⟩ | ⟨-, -, hback, hl, hw⟩ |
    ⟨-, -, -, hl, hw⟩
  · exact ⟨Nat.le_of_eq hl, Nat.le_of_eq hw.symm, hw ▸ hright⟩
  · exact ⟨hl ▸ Nat.sub_le _ _, Nat.le_of_eq hw.symm, hw ▸ hright⟩
  · refine ⟨Nat.le_of_eq hl, hw ▸ Nat.le_add_right _ _, ?_⟩
    rw [hw, Nat.add_comm]
    exact Nat.add_le_of_le_sub hright hback
  · exact ⟨hl ▸ Nat.zero_le _, hw ▸ hright, Nat.le_of_eq hw⟩

theorem toNat_columns (hr : pSrcRect.left.toNat ≤ pSrcRect.right.toNat)
    (hright : pSrcRect.right.toNat ≤ image.m_ImageDesc.m_Width.toNat) :
    (columns image pSrcRect).toNat =
      (widened image pSrcRect).2.toNat - (widened image pSrcRect).1.toNat := by
  obtain ⟨hleft, hwide, -⟩ := widened_bounds hr hright
  exact BitVec.toNat_sub_of_le (Nat.le_trans hleft (Nat.le_trans hr hwide))

theorem widenedInside_iff (hr : pSrcRect.left.toNat ≤ pSrcRect.right.toNat)
    (hright : pSrcRect.right.toNat ≤ image.m_ImageDesc.m_Width.toNat)
    (hsource : pSrcRect.right.toNat ≤ srcDesc.m_Width.toNat) :
    WidenedInside image srcDesc pSrcRect ↔ widensInside image srcDesc pSrcRect := by
  have hcases := widened_cases image hr hright
  unfold widensInside
  constructor
  · intro h
    have hin := h.source
    dsimp only at hcases ⊢
    omega
  · intro h
    obtain ⟨hleft, hwide, hinside⟩ := widened_bounds hr hright
    have hin : (widened image pSrcRect).2.toNat ≤ srcDesc.m_Width.toNat := by
      dsimp only at hcases h
      omega
    exact ⟨hleft, hwide, hin, hinside, toNat_columns hr hright⟩

/-- The assembly is run for no rows exactly where `hasRows` says so. -/
theorem scalar_iff (hr : pSrcRect.left.toNat ≤ pSrcRect.right.toNat)
    (hright : pSrcRect.right.toNat ≤ image.m_ImageDesc.m_Width.toNat)
    (hrows : ¬ pSrcRect.top.toNat < pSrcRect.bottom.toNat) :
    hasRows image pSrcRect ↔ columns image pSrcRect % 16 ≠ 0 ∨ columns image pSrcRect = 0 := by
  have hcases := widened_cases image hr hright
  have hcolumns := toNat_columns hr hright
  have hmod : columns image pSrcRect % 16 = 0 ↔ (columns image pSrcRect).toNat % 16 = 0 := by
    rw [← BitVec.toNat_inj, BitVec.toNat_umod]
    rfl
  have hzero : columns image pSrcRect = 0 ↔ (columns image pSrcRect).toNat = 0 := by
    rw [← BitVec.toNat_inj]
    rfl
  have hsame : pSrcRect.left = pSrcRect.right ↔ pSrcRect.left.toNat = pSrcRect.right.toNat :=
    BitVec.toNat_inj.symm
  unfold hasRows
  simp only [ne_eq, hmod, hzero, hsame]
  dsimp only at hcases
  -- three more equivalences for omega to split on
  clear hmod hzero hsame
  rcases hcases with ⟨hd, hl, hw⟩ | ⟨hd, hfront, hl, hw⟩ | ⟨hd, hfront, hback, hl, hw⟩ |
    ⟨hd, hfront, hback, hl, hw⟩
  · rw [hl, hw] at hcolumns
    omega
  · rw [hl, hw] at hcolumns
    omega
  · rw [hl, hw] at hcolumns
    omega
  · rw [hl, hw] at hcolumns
    omega

/-! ## Places -/

theorem pDstY_eq (image : Ti_Image) (pSrcRect : RECT) : pDstY image pSrcRect =
    place image.m_ImageDesc.m_Width pSrcRect.top.toNat (widened image pSrcRect).1.toNat := by
  rw [place, BitVec.ofNat_toNat, BitVec.ofNat_toNat, BitVec.setWidth_eq, BitVec.setWidth_eq]
  rfl

theorem pSrc_eq (hfmt : srcDesc.m_PixelFormat = .TI_FORMAT_B8G8R8A8_UNORM) :
    pSrc image srcDesc pSrcRect =
      place srcDesc.m_Stride pSrcRect.top.toNat (4 * (widened image pSrcRect).1.toNat) := by
  have hleft : BitVec.ofNat 32 (4 * (widened image pSrcRect).1.toNat) =
      (widened image pSrcRect).1 * 4#32 := by
    rw [BitVec.ofNat_mul, BitVec.ofNat_toNat, BitVec.setWidth_eq, BitVec.mul_comm]
  rw [place, hleft, BitVec.ofNat_toNat, BitVec.setWidth_eq, BitVec.add_comm]
  unfold pSrc
  rw [hfmt]
  rfl

/-- A place in plane `p` is in a buffer that has the three planes. -/
theorem toNat_lt_of_within {a : BitVec 32} {p n : Nat} (hp : p < 3) (hn : n < 2 ^ 32)
    (hplanes : 3 * image.m_ImageDesc.planar.plane ≤ n)
    (ha : Within image.m_ImageDesc.m_Width image.m_ImageDesc.m_Width.toNat
      image.m_ImageDesc.m_Height.toNat
      (a - BitVec.ofNat 32 p * (image.m_ImageDesc.m_Width * image.m_ImageDesc.m_Height))) :
    a.toNat < n := by
  obtain ⟨y, hy, x, hx, hplace⟩ := ha
  have hline := line_add_le (Nat.succ_le_of_lt hx) hy
  simp only [ImageDesc.planar] at hplanes
  have hfits : Fits image.m_ImageDesc.m_Width image.m_ImageDesc.m_Width.toNat
      image.m_ImageDesc.m_Height.toNat := by
    refine ⟨Nat.le_refl _, ?_⟩
    rw [← Nat.add_one_mul, Nat.sub_add_cancel (by omega)]
    omega
  have hoff := hfits.toNat_place hy (Nat.le_of_lt hx)
  rw [← hplace] at hoff
  have hplane : (image.m_ImageDesc.m_Width * image.m_ImageDesc.m_Height).toNat =
      image.m_ImageDesc.m_Height.toNat * image.m_ImageDesc.m_Width.toNat := by
    rw [BitVec.toNat_mul_of_lt (by rw [Nat.mul_comm]; omega), Nat.mul_comm]
  have hp' : p * (image.m_ImageDesc.m_Height.toNat * image.m_ImageDesc.m_Width.toNat) ≤
      2 * (image.m_ImageDesc.m_Height.toNat * image.m_ImageDesc.m_Width.toNat) :=
    Nat.mul_le_mul_right _ (by omega)
  have hbase :
    (BitVec.ofNat 32 p * (image.m_ImageDesc.m_Width * image.m_ImageDesc.m_Height)).toNat =
      p * (image.m_ImageDesc.m_Height.toNat * image.m_ImageDesc.m_Width.toNat) := by
    have hsmall : (BitVec.ofNat 32 p).toNat = p := toNat_ofNat_of_lt (by omega)
    rw [BitVec.toNat_mul_of_lt (by rw [hsmall, hplane]; omega), hsmall, hplane]
  rw [← BitVec.sub_add_cancel a
    (BitVec.ofNat 32 p * (image.m_ImageDesc.m_Width * image.m_ImageDesc.m_Height)),
    BitVec.toNat_add_of_lt (by rw [hoff, hbase]; omega), hoff, hbase]
  omega

theorem storeAll_ok (pDst : BitVec 32) (log : Stores) (b : DataBuffer)
    (h : ∀ e ∈ log, (pDst + e.1).toNat < b.m_BufferSize) :
    ∃ b', storeAll pDst log b = .ok b' ∧ b'.m_BufferSize = b.m_BufferSize := by
  induction log generalizing b with
  | nil => exact ⟨b, rfl, rfl⟩
  | cons e log ih =>
    obtain ⟨a, v⟩ := e
    have hlt := h (a, v) List.mem_cons_self
    have hcopy : b.copyTo (pDst + a).toNat [UInt8.ofBitVec v] = .ok _ :=
      if_pos (Nat.succ_le_of_lt hlt)
    unfold storeAll
    rw [hcopy]
    exact ih _ fun e he => h e (List.mem_cons_of_mem _ he)

/-! ## The conversion -/

section Inside

variable (h : WidenedInside image srcDesc pSrcRect)

include h

/-- What is stored to a plane that starts `p` planes behind the first. -/
theorem WidenedInside.plane (hbottom : pSrcRect.bottom.toNat ≤ image.m_ImageDesc.m_Height.toNat)
    {p : Nat} {pDst : BitVec 32} (hpDst : pDst = pDstY image pSrcRect +
      BitVec.ofNat 32 p * (image.m_ImageDesc.m_Width * image.m_ImageDesc.m_Height))
    {f : BitVec 8 → BitVec 8 → BitVec 8 → BitVec 8} {log : Stores}
    (hlog : Paints image.m_ImageDesc.m_Width
      (ImageProcess.plane f (pSrcBytes image pData srcDesc pSrcRect) srcDesc.m_Stride)
      (Scanned 1 (columns image pSrcRect).toNat (pSrcRect.bottom.toNat - pSrcRect.top.toNat) 0) log) :
    PlaneConverted image pData srcDesc pSrcRect p pDst log := by
  have hrows := hlog.congr fun i x => by rw [scanned_all, Nat.one_mul]
  refine ⟨⟨f, hrows⟩, fun e he => ?_⟩
  obtain ⟨i, x, ⟨hi, hx⟩, rfl⟩ := (hrows e).mp he
  have hdestination := h.destination
  have hcolumns := h.count
  refine ⟨pSrcRect.top.toNat + i, by omega, (widened image pSrcRect).1.toNat + x, by omega, ?_⟩
  rw [hpDst, pDstY_eq, ← place_add_place, add_right_comm, BitVec.add_sub_cancel]

/-- The pixels that are read are in the source. -/
theorem WidenedInside.read (hsrc : pData.Holds srcDesc)
    (hfmt : srcDesc.m_PixelFormat = .TI_FORMAT_B8G8R8A8_UNORM)
    (hbottom : pSrcRect.bottom.toNat ≤ srcDesc.m_Height.toNat) {i x k : Nat}
    (hi : i < pSrcRect.bottom.toNat - pSrcRect.top.toNat) (hx : x < (columns image pSrcRect).toNat)
    (hk : k < 4) :
    Within srcDesc.m_Stride (4 * srcDesc.m_Width.toNat) srcDesc.m_Height.toNat
        (pSrc image srcDesc pSrcRect + place srcDesc.m_Stride i (4 * x + k)) ∧
      (pSrc image srcDesc pSrcRect + place srcDesc.m_Stride i (4 * x + k)).toNat < pData.size := by
  have hsource := h.source
  have hcolumns := h.count
  have hline := hsrc.line_le
  have hsize := hsrc.size
  have hlt := hsrc.size_lt
  rw [hfmt, show (ImageDesc.GetBytesPerPixel .TI_FORMAT_B8G8R8A8_UNORM).toNat = 4 from rfl] at hline
  have hy : pSrcRect.top.toNat + i < srcDesc.m_Height.toNat := by omega
  have hcol :
    4 * (widened image pSrcRect).1.toNat + (4 * x + k) < 4 * srcDesc.m_Width.toNat := by omega
  have hbyte :
    4 * (widened image pSrcRect).1.toNat + (4 * x + k) + 1 ≤ srcDesc.m_Stride.toNat := by omega
  have hend := line_add_le hbyte hy
  have hfits : Fits srcDesc.m_Stride (4 * srcDesc.m_Width.toNat) srcDesc.m_Height.toNat := by
    have hlast : (srcDesc.m_Height.toNat - 1) * srcDesc.m_Stride.toNat + srcDesc.m_Stride.toNat =
        srcDesc.m_Height.toNat * srcDesc.m_Stride.toNat := by
      rw [← Nat.add_one_mul, Nat.sub_add_cancel (by omega)]
    exact ⟨by omega, by omega⟩
  rw [pSrc_eq hfmt, place_add_place]
  refine ⟨⟨_, hy, _, hcol, rfl⟩, ?_⟩
  rw [hfits.toNat_place hy (Nat.le_of_lt hcol)]
  omega

end Inside

/-- **The conversion** goes over the rows of the rectangle. -/
theorem conversion_rows (pData : Block) (srcDesc : ImageDesc)
    (hr : pSrcRect.top.toNat ≤ pSrcRect.bottom.toNat)
    (hrows : pSrcRect.top.toNat < pSrcRect.bottom.toNat ∨
      columns image pSrcRect % 16 ≠ 0 ∨ columns image pSrcRect = 0)
    (hroom : mmx.room = true) (hfuel : 2 ^ 32 ≤ fuel) :
    ∃ t fY fU fV, conversion fuel mmx image pData srcDesc pSrcRect = some t ∧
      t.1.UpTo fY fU fV (pSrcBytes image pData srcDesc pSrcRect) srcDesc.m_Stride
        image.m_ImageDesc.m_Width (columns image pSrcRect).toNat
        (pSrcRect.bottom.toNat - pSrcRect.top.toNat) 0 := by
  have hheight : (pSrcRect.bottom - pSrcRect.top).toNat =
      pSrcRect.bottom.toNat - pSrcRect.top.toNat := BitVec.toNat_sub_of_le hr
  by_cases hscalar : columns image pSrcRect % 16 ≠ 0 ∨ columns image pSrcRect = 0
  · have hupTo := upTo_BGRA32ToYUV444 (pSrcBytes image pData srcDesc pSrcRect) srcDesc.m_Stride
      image.m_ImageDesc.m_Width (columns image pSrcRect) (pSrcRect.bottom - pSrcRect.top)
    rw [hheight] at hupTo
    exact ⟨_, _, _, _, if_pos hscalar, hupTo⟩
  · obtain ⟨hmod, hpos⟩ := not_or.mp hscalar
    have hmod' : (columns image pSrcRect).toNat % 16 = 0 :=
      congrArg BitVec.toNat (not_not.mp hmod)
    have hpos' : (columns image pSrcRect).toNat ≠ 0 :=
      fun hzero => hpos (BitVec.eq_of_toNat_eq hzero)
    have hlt := (columns image pSrcRect).isLt
    have hlt' := (pSrcRect.bottom - pSrcRect.top).isLt
    have hsome := hrows.resolve_right hscalar
    obtain ⟨t, ht, -, hupTo⟩ : ∃ t, BGRA32ToYUV444_SSE fuel mmx _ _ _ (columns image pSrcRect)
        (pSrcRect.bottom - pSrcRect.top) = some t ∧ _ :=
      BGRA32ToYUV444_SSE_total (pSrcBytes image pData srcDesc pSrcRect) srcDesc.m_Stride
        image.m_ImageDesc.m_Width hmod' (Nat.pos_of_ne_zero hpos') (by omega) hroom (by omega) (by omega)
    rw [hheight] at hupTo
    exact ⟨t, _, _, _, ht, hupTo⟩

theorem copyFrom_converted (hin : inBounds image srcDesc pSrcRect)
    (hfmt : srcDesc.m_PixelFormat = .TI_FORMAT_B8G8R8A8_UNORM)
    (hfmt' : image.m_ImageDesc.m_PixelFormat = .TI_FORMAT_I444)
    (hpos : 0 < image.m_InternalBuffer.m_BufferSize) {t : YuvStores × Mmx}
    (ht : conversion fuel mmx image pData srcDesc pSrcRect = some t) :
    CopyFrom fuel mmx image pData srcDesc pSrcRect =
      some ((storePlanes image pSrcRect t.1).map fun buffer =>
        { image with m_InternalBuffer := buffer }) := by
  have hne : srcDesc.m_PixelFormat ≠ image.m_ImageDesc.m_PixelFormat := by
    rw [hfmt, hfmt']
    nofun
  unfold CopyFrom copyConverted DataBuffer.GetPtrForWriting
  rw [if_neg (not_not.mpr hin), if_neg hne, if_pos ⟨hfmt, hfmt'⟩, if_pos hpos, ht]
  rfl

/-- Stores that are inside the planes of an image in its buffer are inside the buffer. -/
theorem storePlanes_ok {stores : YuvStores} (hsize : image.m_InternalBuffer.m_BufferSize < 2 ^ 32)
    (hplanes : 3 * image.m_ImageDesc.planar.plane ≤ image.m_InternalBuffer.m_BufferSize)
    (hy : PlaneConverted image pData srcDesc pSrcRect 0 (pDstY image pSrcRect) stores.y)
    (hu : PlaneConverted image pData srcDesc pSrcRect 1 (pDstU image pSrcRect) stores.u)
    (hv : PlaneConverted image pData srcDesc pSrcRect 2 (pDstV image pSrcRect) stores.v) :
    ∃ buffer, storePlanes image pSrcRect stores = .ok buffer := by
  obtain ⟨b₁, h₁, hsize₁⟩ := storeAll_ok (pDstY image pSrcRect) stores.y image.m_InternalBuffer
    fun e he => toNat_lt_of_within (by omega) hsize hplanes (hy.inside e he)
  obtain ⟨b₂, h₂, hsize₂⟩ := storeAll_ok (pDstU image pSrcRect) stores.u b₁ fun e he => by
    rw [hsize₁]
    exact toNat_lt_of_within (by omega) hsize hplanes (hu.inside e he)
  obtain ⟨b₃, h₃, -⟩ := storeAll_ok (pDstV image pSrcRect) stores.v b₂ fun e he => by
    rw [hsize₂, hsize₁]
    exact toNat_lt_of_within (by omega) hsize hplanes (hv.inside e he)
  refine ⟨b₃, ?_⟩
  rw [storePlanes, h₁]
  show storeAll (pDstU image pSrcRect) stores.u b₁ >>= _ = _
  rw [h₂]
  exact h₃

/-- **Converting to planes.** Columns, rows and accesses stay in both images exactly when there is a
buffer, no way that is taken moves `right` out of the source, and the assembly has rows. -/
theorem converts_inside_iff (himage : image.SetUp) (hsrc : pData.Holds srcDesc)
    (hfmt : srcDesc.m_PixelFormat = .TI_FORMAT_B8G8R8A8_UNORM)
    (hfmt' : image.m_ImageDesc.m_PixelFormat = .TI_FORMAT_I444) (hr : pSrcRect.Ordered)
    (hin : inBounds image srcDesc pSrcRect) (hroom : mmx.room = true) (hfuel : 2 ^ 32 ≤ fuel) :
    ConvertsInside fuel mmx image pData srcDesc pSrcRect ↔
      0 < image.m_InternalBuffer.m_BufferSize ∧ widensInside image srcDesc pSrcRect ∧
        hasRows image pSrcRect := by
  obtain ⟨hleft, htop⟩ := hr.toNat
  obtain ⟨-, -, hrs, hbs, hrd, hbd⟩ := id hin
  constructor
  · intro h
    have hpos : 0 < image.m_InternalBuffer.m_BufferSize := by
      by_contra hzero
      have hwritable := h.writable
      rw [DataBuffer.GetPtrForWriting, if_neg hzero] at hwritable
      cases hwritable
    have hinside : WidenedInside image srcDesc pSrcRect :=
      ⟨h.contains.1, h.contains.2, h.inSource, h.inDestination, toNat_columns hleft hrd⟩
    refine ⟨hpos, (widenedInside_iff hleft hrd hrs).mp hinside, ?_⟩
    by_cases hrows : pSrcRect.top.toNat < pSrcRect.bottom.toNat
    · exact Or.inl hrows
    · refine (scalar_iff hleft hrd hrows).mpr ?_
      by_contra hscalar
      obtain ⟨hmod, hcolumns⟩ := not_or.mp hscalar
      obtain ⟨t, ht, ⟨⟨f, hpaints⟩, -⟩, -, -⟩ := h.converted
      -- the assembly has stored to a line, but there is none
      refine BGRA32ToYUV444_SSE_stores _ _ _ _ _ (not_not.mp hmod) hcolumns ht ?_
      refine List.eq_nil_iff_forall_not_mem.mpr fun e he => ?_
      obtain ⟨i, x, ⟨hi, -⟩, -⟩ := (hpaints e).mp he
      omega
  · rintro ⟨hpos, hwidens, hrows⟩
    have hinside := (widenedInside_iff hleft hrd hrs).mpr hwidens
    have hsome : pSrcRect.top.toNat < pSrcRect.bottom.toNat ∨
        columns image pSrcRect % 16 ≠ 0 ∨ columns image pSrcRect = 0 := by
      by_cases hlines : pSrcRect.top.toNat < pSrcRect.bottom.toNat
      · exact Or.inl hlines
      · exact Or.inr ((scalar_iff hleft hrd hlines).mp hrows)
    obtain ⟨t, fY, fU, fV, ht, hupTo⟩ := conversion_rows pData srcDesc htop hsome hroom hfuel
    have hy : PlaneConverted image pData srcDesc pSrcRect 0 (pDstY image pSrcRect) t.1.y :=
      hinside.plane hbd (by simp) hupTo.y
    have hu : PlaneConverted image pData srcDesc pSrcRect 1 (pDstU image pSrcRect) t.1.u :=
      hinside.plane hbd (by simp [pDstU]) hupTo.u
    have hv : PlaneConverted image pData srcDesc pSrcRect 2 (pDstV image pSrcRect) t.1.v :=
      hinside.plane hbd (by unfold pDstV pDstU; grind) hupTo.v
    refine ⟨if_pos hpos, ⟨hinside.left, hinside.right⟩, hinside.source, hinside.destination,
      ⟨t, ht, hy, hu, hv⟩, fun i x k hi hx hk =>
        hinside.read hsrc hfmt hbs hi hx hk, fun hplanes => ?_⟩
    obtain ⟨buffer, hbuffer⟩ := storePlanes_ok himage.size_lt hplanes hy hu hv
    refine ⟨buffer, ?_⟩
    rw [copyFrom_converted hin hfmt hfmt' hpos ht, hbuffer]
    rfl

/-- What `Setup` makes of three lines of 32 samples. -/
def threeLines : Ti_Image := ⟨⟨32, 3, 96, true, .TI_FORMAT_I444⟩, ⟨fun _ => 0, 288, true, 0⟩⟩

theorem threeLines_setUp : threeLines.SetUp := ⟨rfl, by decide, by decide⟩

/-- Columns 5 to 8 of two lines: twelve columns are added behind them. -/
theorem converts_inside_widened :
    widened threeLines ⟨5, 1, 9, 3⟩ = (5, 21) ∧
      ConvertsInside (2 ^ 32) clearedMmx threeLines ⟨fun _ => 90, 288⟩
        ⟨24, 3, 96, true, .TI_FORMAT_B8G8R8A8_UNORM⟩ ⟨5, 1, 9, 3⟩ := by
  refine ⟨by decide, ?_⟩
  exact (converts_inside_iff threeLines_setUp ⟨rfl, by decide, by decide, by decide⟩ rfl
    rfl ⟨by decide, by decide, by decide, by decide⟩ (by decide) rfl (Nat.le_refl _)).mpr
    ⟨by decide, by decide, by decide⟩

/-- What `Setup` makes of a line of sixteen samples. -/
def sixteenByOne : Ti_Image := ⟨⟨16, 1, 48, true, .TI_FORMAT_I444⟩, ⟨fun _ => 0, 48, true, 0⟩⟩

theorem sixteenByOne_setUp : sixteenByOne.SetUp := ⟨rfl, by decide, by decide⟩

/-- **A narrow source**: fifteen columns are added to one, and the source has only that one. -/
theorem widened_past_the_source :
    ¬ ∀ (image : Ti_Image) (pData : Block) (srcDesc : ImageDesc) (pSrcRect : RECT), image.SetUp →
      pData.Holds srcDesc → srcDesc.m_PixelFormat = .TI_FORMAT_B8G8R8A8_UNORM →
      image.m_ImageDesc.m_PixelFormat = .TI_FORMAT_I444 → pSrcRect.Ordered →
      inBounds image srcDesc pSrcRect →
      ConvertsInside (2 ^ 32) clearedMmx image pData srcDesc pSrcRect := by
  intro hall
  have h :=
    hall sixteenByOne ⟨fun _ => 90, 4⟩ ⟨1, 1, 4, true, .TI_FORMAT_B8G8R8A8_UNORM⟩ ⟨0, 0, 1, 1⟩
    sixteenByOne_setUp ⟨rfl, by decide, by decide, by decide⟩ rfl rfl
    ⟨by decide, by decide, by decide, by decide⟩ (by decide)
  exact absurd h.inSource (by decide)

end Ti_Image

end TiraRdp
