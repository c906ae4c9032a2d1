import TiraRdp.Lib.Loop
import TiraRdp.Lib.Raster

/-!
# `ImageProcess`: from YUV to RGB, pixel by pixel

`NV12ToRGB` in both its branches, `NV12ToBGRA32`, and `YUV420ToBGRA32` with `bSmooth` false
(`common/utility/private/common/ImageProcess.cpp:1750-1767`, `1941-2106`;
`common/utility/include/ImageProcess.h:13-20`). Pointers are 32-bit and wrap. Each plane is a memory
of its own, addressed from where its pointer starts; what a converter leaves behind is the list of
its stores. The `int` sums are exact: no sum of 32 bits is left.

* `putPixel` is the three stores of a pixel and `rgbOpr`, and `pixel` are the bytes they store.
* `picture` is what a raster should hold: a pixel is made of its own `Y`, and of the chroma that a
  row and a column have, two rows and two columns to a pair in both formats (`nv12`, `yuv420`).
* The general branch of `NV12ToRGB` goes back by `uWidth` at the end of a row, but an odd row has
  moved one byte less: `nv12Drift` is the chroma that it reads.

Result: `NV12ToRGB` computes every pixel from its `Y` and the chroma pair of its two by two block
exactly when the width is even or there is one row (`NV12ToRGB_samples_iff`).
-/

namespace TiraRdp.ImageProcess

open Lib Lib.Loop Lib.Raster

/-- The memory that a plane is read from. -/
abbrev Plane := BitVec 32 → BitVec 8

/-- What has been stored. -/
abbrev Stores := List (BitVec 32 × BitVec 8)

/-- `paucClip`, for the indices from -2048 to 2047 that it has. -/
def ToUChar (iValue : Int) : BitVec 8 :=
  if iValue < 0 then 0 else BitVec.ofInt 8 (if iValue > 255 then 255 else iValue)

def iBCommon (iU : Int) : Int := (116130 * iU + 32768) >>> (16 : Nat)

def iGCommon (iU iV : Int) : Int := (-22554 * iU - 46802 * iV + 32768) >>> (16 : Nat)

def iRCommon (iV : Int) : Int := (91881 * iV + 32768) >>> (16 : Nat)

/-- `RgbExtraOperationNop` and `RgbExtraOperationAsign`. -/
inductive RgbExtraOperation
  | nop
  | asign
  deriving Repr, DecidableEq

def RgbExtraOperation.run : RgbExtraOperation → BitVec 32 → Stores → BitVec 32 × Stores
  | nop, ptr, log => (ptr, log)
  | asign, ptr, log => (ptr + 1, log ++ [(ptr, 0)])

/-- The component count that goes with an operation. -/
def RgbExtraOperation.components : RgbExtraOperation → Nat
  | nop => 3
  | asign => 4

/-- `*pRgb++ = …` for the three colours, and `rgbOpr(pRgb)`. -/
def putPixel (rgbOpr : RgbExtraOperation) (iY iU iV : BitVec 8) (pRgb : BitVec 32) (log : Stores) :
    BitVec 32 × Stores :=
  let y : Int := iY.toNat
  let u : Int := iU.toNat - 128
  let v : Int := iV.toNat - 128
  rgbOpr.run (pRgb + 3) (log ++
    [(pRgb, ToUChar (y + iBCommon u)), (pRgb + 1, ToUChar (y + iGCommon u v)),
      (pRgb + 2, ToUChar (y + iRCommon v))])

/-! ## NV12 -/

/-- The pointers of the branch for even sizes: two lines at a time. -/
structure Nv12Lines where
  pY : BitVec 32
  pYY : BitVec 32
  pUV : BitVec 32
  pRGB1 : BitVec 32
  pRGB2 : BitVec 32
  log : Stores

/-- Two by two pixels. -/
def nv12Quad (rgbOpr : RgbExtraOperation) (mY mUV : Plane) (s : Nv12Lines) : Nv12Lines :=
  let iU := mUV s.pUV
  let iV := mUV (s.pUV + 1)
  let (pRGB1, log) := putPixel rgbOpr (mY s.pY) iU iV s.pRGB1 s.log
  let (pRGB1, log) := putPixel rgbOpr (mY (s.pY + 1)) iU iV pRGB1 log
  let (pRGB2, log) := putPixel rgbOpr (mY s.pYY) iU iV s.pRGB2 log
  let (pRGB2, log) := putPixel rgbOpr (mY (s.pYY + 1)) iU iV pRGB2 log
  ⟨s.pY + 2, s.pYY + 2, s.pUV + 2, pRGB1, pRGB2, log⟩

def nv12Even (uRgbStride : BitVec 32) (iRgbComponent : Nat) (mY mUV : Plane)
    (uYStride uUVStride uWidth uHeight : BitVec 32) (rgbOpr : RgbExtraOperation) : Stores :=
  let offsetRGB := uRgbStride * 2 - uWidth * BitVec.ofNat 32 iRgbComponent
  let offsetY := uYStride * 2 - uWidth
  let offsetUV := uUVStride - uWidth
  let lines := upTo (fun _ s =>
    let s := upTo (fun _ s => nv12Quad rgbOpr mY mUV s) (uWidth / 2).toNat s
    ⟨s.pY + offsetY, s.pYY + offsetY, s.pUV + offsetUV, s.pRGB1 + offsetRGB, s.pRGB2 + offsetRGB,
      s.log⟩)
    (uHeight / 2).toNat ⟨0, uYStride, 0, 0, uRgbStride, []⟩
  lines.log

/-- The pointers of the general branch. -/
structure Nv12Row where
  pY : BitVec 32
  pUV : BitVec 32
  pRgb : BitVec 32
  log : Stores

def nv12Pixel (rgbOpr : RgbExtraOperation) (mY mUV : Plane) (j : Nat) (s : Nv12Row) : Nv12Row :=
  let (pRgb, log) := putPixel rgbOpr (mY s.pY) (mUV s.pUV) (mUV (s.pUV + 1)) s.pRgb s.log
  ⟨s.pY + 1, s.pUV + BitVec.ofNat 32 ((j &&& 1) <<< 1), pRgb, log⟩

def nv12General (uRgbStride : BitVec 32) (iRgbComponent : Nat) (mY mUV : Plane)
    (uYStride uUVStride uWidth uHeight : BitVec 32) (rgbOpr : RgbExtraOperation) : Stores :=
  let iRgbOffset := uRgbStride - BitVec.ofNat 32 iRgbComponent * uWidth
  let iYOffset := uYStride - uWidth
  let iUVOffset1 := uUVStride - uWidth
  let iUVOffset2 := -uWidth
  let row := upTo (fun i s =>
    let s := upTo (nv12Pixel rgbOpr mY mUV) uWidth.toNat s
    ⟨s.pY + iYOffset, s.pUV + (if i &&& 1 ≠ 0 then iUVOffset1 else iUVOffset2), s.pRgb + iRgbOffset,
      s.log⟩)
    uHeight.toNat ⟨0, 0, 0, []⟩
  row.log

def NV12ToRGB (uRgbStride : BitVec 32) (iRgbComponent : Nat) (mY mUV : Plane)
    (uYStride uUVStride uWidth uHeight : BitVec 32) (rgbOpr : RgbExtraOperation) : Stores :=
  if uWidth &&& 1 = 0 ∧ uHeight &&& 1 = 0 then
    nv12Even uRgbStride iRgbComponent mY mUV uYStride uUVStride uWidth uHeight rgbOpr
  else
    nv12General uRgbStride iRgbComponent mY mUV uYStride uUVStride uWidth uHeight rgbOpr

def NV12ToBGRA32 (uRgbStride : BitVec 32) (mY mUV : Plane)
    (uYStride uUVStride uWidth uHeight : BitVec 32) : Stores :=
  NV12ToRGB uRgbStride 4 mY mUV uYStride uUVStride uWidth uHeight .asign

/-! ## YUV420 -/

structure Yuv420Row where
  pY : BitVec 32
  pU : BitVec 32
  pV : BitVec 32
  pRgb : BitVec 32
  log : Stores

def yuv420Pixel (mY mU mV : Plane) (j : Nat) (s : Yuv420Row) : Yuv420Row :=
  let (pRgb, log) := putPixel .asign (mY s.pY) (mU s.pU) (mV s.pV) s.pRgb s.log
  ⟨s.pY + 1, s.pU + BitVec.ofNat 32 (j &&& 1), s.pV + BitVec.ofNat 32 (j &&& 1), pRgb, log⟩

/-- With `bSmooth` false. -/
def YUV420ToBGRA32 (uRgbStride : BitVec 32) (mY mU mV : Plane)
    (uYStride uUStride uVStride uWidth uHeight : BitVec 32) : Stores :=
  let uHalfWidth := uWidth >>> 1
  let iRgbOffset := uRgbStride - 4 * uWidth
  let iYOffset := uYStride - uWidth
  let iUOffset1 := uUStride - uHalfWidth
  let iUOffset2 := -uHalfWidth
  let iVOffset1 := uVStride - uHalfWidth
  let iVOffset2 := iUOffset2
  let row := upTo (fun i s =>
    let s := upTo (yuv420Pixel mY mU mV) uWidth.toNat s
    ⟨s.pY + iYOffset, s.pU + (if i &&& 1 ≠ 0 then iUOffset1 else iUOffset2),
      s.pV + (if i &&& 1 ≠ 0 then iVOffset1 else iVOffset2), s.pRgb + iRgbOffset, s.log⟩)
    uHeight.toNat ⟨0, 0, 0, 0, []⟩
  row.log

/-! ## What a raster should hold -/

/-- The bytes of a pixel. -/
def pixel (iY iU iV : BitVec 8) : Nat → BitVec 8
  | 0 => ToUChar (iY.toNat + iBCommon (iU.toNat - 128))
  | 1 => ToUChar (iY.toNat + iGCommon (iU.toNat - 128) (iV.toNat - 128))
  | 2 => ToUChar (iY.toNat + iRCommon (iV.toNat - 128))
  | _ => 0

/-- Byte `x` of row `i`, for pixels of `c` bytes that `mix` makes of `Y` and of a chroma pair. -/
def picture (mix : BitVec 8 → BitVec 8 → BitVec 8 → Nat → BitVec 8) (c : Nat)
    (luma : Nat → Nat → BitVec 8) (chroma : Nat → Nat → BitVec 8 × BitVec 8) (i x : Nat) :
    BitVec 8 :=
  mix (luma i (x / c)) (chroma i (x / c)).1 (chroma i (x / c)).2 (x % c)

/-- `Y[i][j]`. -/
def luma (mY : Plane) (uYStride : BitVec 32) (i j : Nat) : BitVec 8 := mY (place uYStride i j)

/-- The chroma pair of the two by two block of a pixel. -/
def nv12 (mUV : Plane) (uUVStride : BitVec 32) (i j : Nat) : BitVec 8 × BitVec 8 :=
  (mUV (place uUVStride (i / 2) (2 * (j / 2))), mUV (place uUVStride (i / 2) (2 * (j / 2) + 1)))

def yuv420 (mU mV : Plane) (uUStride uVStride : BitVec 32) (i j : Nat) : BitVec 8 × BitVec 8 :=
  (mU (place uUStride (i / 2) (j / 2)), mV (place uVStride (i / 2) (j / 2)))

/-- Where the general branch is in the chroma plane: for an odd width, a byte further back in every
row. -/
def drifted (uUVStride : BitVec 32) (w i j : Nat) : BitVec 32 :=
  place uUVStride (i / 2) (2 * (j / 2)) - BitVec.ofNat 32 (i * (w % 2))

def nv12Drift (mUV : Plane) (uUVStride : BitVec 32) (w i j : Nat) : BitVec 8 × BitVec 8 :=
  (mUV (drifted uUVStride w i j), mUV (drifted uUVStride w i j + 1))

/-- The table has every index that is looked up. -/
theorem ToUChar_in_table (iY iU iV : BitVec 8) (k : Int)
    (hk : k = iBCommon (iU.toNat - 128) ∨ k = iGCommon (iU.toNat - 128) (iV.toNat - 128) ∨
      k = iRCommon (iV.toNat - 128)) : -2048 ≤ iY.toNat + k ∧ iY.toNat + k < 2048 := by
  have hy := iY.isLt
  have hu := iU.isLt
  have hv := iV.isLt
  simp only [iBCommon, iGCommon, iRCommon, Int.shiftRight_eq_div_pow] at hk
  omega

section Pixels

variable {rgbOpr : RgbExtraOperation}

theorem RgbExtraOperation.components_pos (rgbOpr : RgbExtraOperation) : 0 < rgbOpr.components := by
  cases rgbOpr <;> decide

/-- **A pixel** is stored byte by byte. -/
theorem putPixel_eq (iY iU iV : BitVec 8) (p : BitVec 32) (log : Stores) :
    putPixel rgbOpr iY iU iV p log =
      (p + BitVec.ofNat 32 rgbOpr.components, log ++ block p rgbOpr.components (pixel iY iU iV)) := by
  have hfour : p + 3#32 + 1#32 = p + 4#32 := by
    rw [BitVec.add_assoc]
    rfl
  cases rgbOpr <;>
    simp [putPixel, RgbExtraOperation.run, RgbExtraOperation.components, block, List.range,
      List.range.loop, pixel, hfour]

variable {mix : BitVec 8 → BitVec 8 → BitVec 8 → Nat → BitVec 8} {c : Nat}
  {luma : Nat → Nat → BitVec 8} {chroma : Nat → Nat → BitVec 8 × BitVec 8}

/-- The bytes of a run of pixels. -/
theorem picture_add (hc : 0 < c) (i j t : Nat) :
    picture mix c luma chroma i (c * j + t) =
      mix (luma i (j + t / c)) (chroma i (j + t / c)).1 (chroma i (j + t / c)).2 (t % c) := by
  rw [picture, Nat.mul_add_div hc, Nat.mul_add_mod]

theorem paints_pixel (rgbOpr : RgbExtraOperation) (luma : Nat → Nat → BitVec 8)
    (chroma : Nat → Nat → BitVec 8 × BitVec 8) (stride : BitVec 32) (i j : Nat) :
    Paints stride (picture pixel rgbOpr.components luma chroma)
      (fun k y => k = i ∧ rgbOpr.components * j ≤ y ∧ y < rgbOpr.components * j + rgbOpr.components)
      (block (place stride i (rgbOpr.components * j)) rgbOpr.components
        (pixel (luma i j) (chroma i j).1 (chroma i j).2)) := by
  apply paints_block
  intro t ht
  rw [picture_add rgbOpr.components_pos, Nat.div_eq_of_lt ht, Nat.mod_eq_of_lt ht]
  rfl

end Pixels

/-! ## The loops -/

section General

variable {rgbOpr : RgbExtraOperation} {mY mUV : Plane} {rs ys us uWidth uHeight : BitVec 32}
  {i j w : Nat} {s : Nv12Row}

/-- The general branch is at column `j` of row `i`. -/
structure Nv12Row.At (rgbOpr : RgbExtraOperation) (mY mUV : Plane)
    (rs ys us : BitVec 32) (w i j : Nat)
    (s : Nv12Row) : Prop where
  pY : s.pY = place ys i j
  pUV : s.pUV = drifted us w i j
  pRgb : s.pRgb = place rs i (rgbOpr.components * j)
  log : Paints rs (picture pixel rgbOpr.components (luma mY ys) (nv12Drift mUV us w))
    (Scanned 1 (rgbOpr.components * w) i (rgbOpr.components * j)) s.log

/-- A pixel moves on by a chroma pair every other time. -/
theorem drifted_add :
    drifted us w i j + BitVec.ofNat 32 ((j &&& 1) <<< 1) = drifted us w i (j + 1) := by
  have hpair : 2 * (j / 2) + (j &&& 1) <<< 1 = 2 * ((j + 1) / 2) := by
    rw [Nat.and_one_is_mod, Nat.shiftLeft_eq]
    omega
  unfold drifted
  rw [← hpair, ← place_add]
  grind

/-- The chroma goes back to its start at the end of an even row, and on to its next row at the end
of an odd one. -/
theorem chroma_next (us : BitVec 32) (x : Nat) :
    place us (i / 2) x + (if i &&& 1 ≠ 0 then us - BitVec.ofNat 32 x else -BitVec.ofNat 32 x) =
      place us ((i + 1) / 2) 0 := by
  rw [Nat.and_one_is_mod]
  rcases Nat.mod_two_eq_zero_or_one i with hi | hi
  · have hrow : (i + 1) / 2 = i / 2 := by omega
    rw [hi, hrow, if_neg (by decide), place_back]
  · have hrow : (i + 1) / 2 = i / 2 + 1 := by omega
    rw [hi, hrow, if_pos (by decide), place_next]

/-- At the end of a row, an odd width has moved on by a byte less than it goes back. -/
theorem drifted_next :
    drifted us w i w + (if i &&& 1 ≠ 0 then us - BitVec.ofNat 32 w else -BitVec.ofNat 32 w) =
      drifted us w (i + 1) 0 := by
  have hw : BitVec.ofNat 32 w = BitVec.ofNat 32 (2 * (w / 2)) + BitVec.ofNat 32 (w % 2) := by
    rw [← BitVec.ofNat_add, Nat.div_add_mod]
  have hdrift : BitVec.ofNat 32 ((i + 1) * (w % 2)) =
      BitVec.ofNat 32 (i * (w % 2)) + BitVec.ofNat 32 (w % 2) := by
    rw [← BitVec.ofNat_add, Nat.succ_mul]
  have hnext := chroma_next us (2 * (w / 2)) (i := i)
  unfold drifted
  rw [hdrift, hw, Nat.zero_div, Nat.mul_zero, ← hnext]
  split_ifs
  all_goals grind

theorem Nv12Row.At.pixel (h : s.At rgbOpr mY mUV rs ys us w i j) :
    (nv12Pixel rgbOpr mY mUV j s).At rgbOpr mY mUV rs ys us w i (j + 1) := by
  unfold nv12Pixel
  rw [putPixel_eq]
  constructor
  · rw [h.pY]
    exact place_add 1
  · rw [h.pUV]
    exact drifted_add
  · rw [h.pRgb, place_add]
    rfl
  · rw [h.pRgb, h.pY, h.pUV]
    refine (h.log.append (paints_pixel _ _ _ _ _ _)).congr fun k y => ?_
    rw [Nat.mul_add_one]
    unfold Scanned
    omega

theorem Nv12Row.At.next (h : s.At rgbOpr mY mUV rs ys us uWidth.toNat i uWidth.toNat) :
    Nv12Row.At rgbOpr mY mUV rs ys us uWidth.toNat (i + 1) 0
      ⟨s.pY + (ys - uWidth),
        s.pUV + (if i &&& 1 ≠ 0 then us - uWidth else -uWidth),
        s.pRgb + (rs - BitVec.ofNat 32 rgbOpr.components * uWidth), s.log⟩ := by
  have hwidth : uWidth = BitVec.ofNat 32 uWidth.toNat := by simp
  generalize uWidth.toNat = w at h hwidth ⊢
  subst hwidth
  constructor
  · rw [h.pY]
    exact place_next
  · rw [h.pUV]
    exact drifted_next
  · rw [h.pRgb, ← BitVec.ofNat_mul]
    exact place_next
  · exact h.log.congr scanned_next

/-- **The general branch** fills the raster, with the chroma that it reads. -/
theorem paints_nv12General :
    Paints rs (picture ImageProcess.pixel rgbOpr.components (luma mY ys)
        (nv12Drift mUV us uWidth.toNat))
      (fun i x => i < uHeight.toNat ∧ x < rgbOpr.components * uWidth.toNat)
      (nv12General rs rgbOpr.components mY mUV ys us uWidth uHeight rgbOpr) := by
  have hrows := upTo_invariant
    (fun i s =>
      let s := upTo (nv12Pixel rgbOpr mY mUV) uWidth.toNat s
      ⟨s.pY + (ys - uWidth), s.pUV + (if i &&& 1 ≠ 0 then us - uWidth else -uWidth),
        s.pRgb + (rs - BitVec.ofNat 32 rgbOpr.components * uWidth), s.log⟩)
    (fun i s => s.At rgbOpr mY mUV rs ys us uWidth.toNat i 0)
    (n := uHeight.toNat) (s := (⟨0, 0, 0, []⟩ : Nv12Row)) ?_ ?_
  · refine hrows.log.congr fun i x => ?_
    rw [Nat.mul_zero, scanned_all, Nat.one_mul]
  · exact ⟨place_zero.symm, by simp [drifted, place], place_zero.symm, paints_nil not_scanned_zero⟩
  · intro i s _ hs
    have hrow := upTo_invariant (nv12Pixel rgbOpr mY mUV)
      (fun j s => s.At rgbOpr mY mUV rs ys us uWidth.toNat i j) (n := uWidth.toNat) hs
      fun j s _ hj => hj.pixel
    exact hrow.next

end General

section Even

variable {rgbOpr : RgbExtraOperation} {mY mUV : Plane} {rs ys us uWidth uHeight : BitVec 32}
  {i j w : Nat} {s : Nv12Lines}

/-- The branch for even sizes is at block `j` of the blocks `i`, `w` in a row. -/
structure Nv12Lines.At (rgbOpr : RgbExtraOperation) (mY mUV : Plane) (rs ys us : BitVec 32)
    (w i j : Nat) (s : Nv12Lines) : Prop where
  pY : s.pY = place ys (2 * i) (2 * j)
  pYY : s.pYY = place ys (2 * i + 1) (2 * j)
  pUV : s.pUV = place us i (2 * j)
  pRGB1 : s.pRGB1 = place rs (2 * i) (rgbOpr.components * (2 * j))
  pRGB2 : s.pRGB2 = place rs (2 * i + 1) (rgbOpr.components * (2 * j))
  log : Paints rs (picture pixel rgbOpr.components (luma mY ys) (nv12 mUV us))
    (Scanned 2 (rgbOpr.components * (2 * w)) i (rgbOpr.components * (2 * j))) s.log

theorem nv12_block {a b : Nat} (ha : a < 2) (hb : b < 2) :
    nv12 mUV us (2 * i + a) (2 * j + b) =
      (mUV (place us i (2 * j)), mUV (place us i (2 * j) + 1)) := by
  have hi : (2 * i + a) / 2 = i := by omega
  have hj : (2 * j + b) / 2 = j := by omega
  have hplace : place us i (2 * j) + 1 = place us i (2 * j + 1) := place_add 1
  rw [nv12, hi, hj, hplace]

/-- One of the four pixels of a block. -/
theorem paints_block_pixel (rgbOpr : RgbExtraOperation) (mY mUV : Plane) (rs ys us : BitVec 32)
    {a b : Nat} (ha : a < 2) (hb : b < 2) :
    Paints rs (picture pixel rgbOpr.components (luma mY ys) (nv12 mUV us))
      (fun k y => k = 2 * i + a ∧ rgbOpr.components * (2 * j + b) ≤ y ∧
        y < rgbOpr.components * (2 * j + b) + rgbOpr.components)
      (block (place rs (2 * i + a) (rgbOpr.components * (2 * j + b))) rgbOpr.components
        (pixel (mY (place ys (2 * i + a) (2 * j + b))) (mUV (place us i (2 * j)))
          (mUV (place us i (2 * j) + 1)))) := by
  have hpixel := paints_pixel rgbOpr (luma mY ys) (nv12 mUV us) rs (2 * i + a) (2 * j + b)
  rw [nv12_block ha hb] at hpixel
  exact hpixel

theorem Nv12Lines.At.quad (h : s.At rgbOpr mY mUV rs ys us w i j) :
    (nv12Quad rgbOpr mY mUV s).At rgbOpr mY mUV rs ys us w i (j + 1) := by
  have hright : rgbOpr.components * (2 * j + 1) = rgbOpr.components * (2 * j) + rgbOpr.components :=
    Nat.mul_add_one _ _
  have hend : rgbOpr.components * (2 * (j + 1)) =
      rgbOpr.components * (2 * j) + rgbOpr.components + rgbOpr.components := by
    rw [Nat.mul_add_one 2, Nat.mul_add]
    omega
  have hy (k : Nat) : place ys k (2 * j) + 1 = place ys k (2 * j + 1) := place_add 1
  have hp (k : Nat) : place rs k (rgbOpr.components * (2 * j)) + BitVec.ofNat 32 rgbOpr.components =
      place rs k (rgbOpr.components * (2 * j + 1)) := by rw [place_add, hright]
  have hp2 (k : Nat) : place rs k (rgbOpr.components * (2 * j + 1)) +
      BitVec.ofNat 32 rgbOpr.components = place rs k (rgbOpr.components * (2 * (j + 1))) := by
    rw [place_add, hend, hright]
  unfold nv12Quad
  simp only [putPixel_eq, h.pY, h.pYY, h.pUV, h.pRGB1, h.pRGB2, hy, hp, hp2]
  refine ⟨place_add 2, place_add 2, place_add 2, rfl, rfl, ?_⟩
  have htl :=
    paints_block_pixel rgbOpr mY mUV rs ys us (i := i) (j := j) (a := 0) (b := 0) (by decide)
    (by decide)
  have htr :=
    paints_block_pixel rgbOpr mY mUV rs ys us (i := i) (j := j) (a := 0) (b := 1) (by decide)
    (by decide)
  have hbl :=
    paints_block_pixel rgbOpr mY mUV rs ys us (i := i) (j := j) (a := 1) (b := 0) (by decide)
    (by decide)
  have hbr :=
    paints_block_pixel rgbOpr mY mUV rs ys us (i := i) (j := j) (a := 1) (b := 1) (by decide)
    (by decide)
  refine ((((h.log.append htl).append htr).append hbl).append hbr).congr fun k y => ?_
  simp only [Nat.add_zero]
  rw [hright, hend]
  unfold Scanned
  omega

theorem Nv12Lines.At.next (h : s.At rgbOpr mY mUV rs ys us w i w)
    (hwidth : uWidth = BitVec.ofNat 32 (2 * w)) :
    Nv12Lines.At rgbOpr mY mUV rs ys us w (i + 1) 0
      ⟨s.pY + (ys * 2 - uWidth), s.pYY + (ys * 2 - uWidth), s.pUV + (us - uWidth),
        s.pRGB1 + (rs * 2 - uWidth * BitVec.ofNat 32 rgbOpr.components),
        s.pRGB2 + (rs * 2 - uWidth * BitVec.ofNat 32 rgbOpr.components), s.log⟩ := by
  have hcomponents : uWidth * BitVec.ofNat 32 rgbOpr.components =
      BitVec.ofNat 32 (rgbOpr.components * (2 * w)) := by
    rw [hwidth, BitVec.mul_comm, ← BitVec.ofNat_mul]
  rw [hcomponents, hwidth]
  constructor
  · rw [h.pY]
    exact place_next_two
  · rw [h.pYY]
    exact place_next_two
  · rw [h.pUV]
    exact place_next
  · rw [h.pRGB1]
    exact place_next_two
  · rw [h.pRGB2]
    exact place_next_two
  · exact h.log.congr scanned_next

/-- **The branch for even sizes** fills the raster, with the chroma of the blocks. -/
theorem paints_nv12Even (rgbOpr : RgbExtraOperation) (hw : uWidth.toNat % 2 = 0)
    (hh : uHeight.toNat % 2 = 0) :
    Paints rs (picture pixel rgbOpr.components (luma mY ys) (nv12 mUV us))
      (fun i x => i < uHeight.toNat ∧ x < rgbOpr.components * uWidth.toNat)
      (nv12Even rs rgbOpr.components mY mUV ys us uWidth uHeight rgbOpr) := by
  have hwidth : uWidth.toNat = 2 * (uWidth.toNat / 2) := by omega
  have hheight : uHeight.toNat = 2 * (uHeight.toNat / 2) := by omega
  have hwidth32 : uWidth = BitVec.ofNat 32 (2 * (uWidth.toNat / 2)) := by
    rw [← hwidth]
    simp
  have hstart : place rs 1 0 = rs := by simp [place]
  have hystart : place ys 1 0 = ys := by simp [place]
  have hrows := upTo_invariant
    (fun _ s =>
      let s := upTo (fun _ s => nv12Quad rgbOpr mY mUV s) (uWidth.toNat / 2) s
      ⟨s.pY + (ys * 2 - uWidth), s.pYY + (ys * 2 - uWidth), s.pUV + (us - uWidth),
        s.pRGB1 + (rs * 2 - uWidth * BitVec.ofNat 32 rgbOpr.components),
        s.pRGB2 + (rs * 2 - uWidth * BitVec.ofNat 32 rgbOpr.components), s.log⟩)
    (fun i s => s.At rgbOpr mY mUV rs ys us (uWidth.toNat / 2) i 0)
    (n := uHeight.toNat / 2) (s := (⟨0, ys, 0, 0, rs, []⟩ : Nv12Lines)) ?_ ?_
  · refine (hrows.log).congr fun i x => ?_
    rw [Nat.mul_zero, scanned_all, ← hwidth, ← hheight]
  · exact ⟨place_zero.symm, hystart.symm, place_zero.symm, place_zero.symm, hstart.symm,
      paints_nil not_scanned_zero⟩
  · intro i s _ hs
    have hrow := upTo_invariant (fun _ s => nv12Quad rgbOpr mY mUV s)
      (fun j s => s.At rgbOpr mY mUV rs ys us (uWidth.toNat / 2) i j) (n := uWidth.toNat / 2) hs
      fun j s _ hj => hj.quad
    exact hrow.next hwidth32

end Even

section Yuv420

variable {mY mU mV : Plane} {rs ys us vs uWidth uHeight : BitVec 32} {i j w : Nat} {s : Yuv420Row}

/-- `YUV420ToBGRA32` is at column `j` of row `i`. -/
structure Yuv420Row.At (mY mU mV : Plane) (rs ys us vs : BitVec 32) (w i j : Nat)
    (s : Yuv420Row) : Prop where
  pY : s.pY = place ys i j
  pU : s.pU = place us (i / 2) (j / 2)
  pV : s.pV = place vs (i / 2) (j / 2)
  pRgb : s.pRgb = place rs i (4 * j)
  log : Paints rs (picture pixel 4 (luma mY ys) (yuv420 mU mV us vs))
    (Scanned 1 (4 * w) i (4 * j)) s.log

theorem Yuv420Row.At.pixel (h : s.At mY mU mV rs ys us vs w i j) :
    (yuv420Pixel mY mU mV j s).At mY mU mV rs ys us vs w i (j + 1) := by
  have hpair : j / 2 + (j &&& 1) = (j + 1) / 2 := by
    rw [Nat.and_one_is_mod]
    omega
  unfold yuv420Pixel
  rw [putPixel_eq]
  constructor
  · rw [h.pY]
    exact place_add 1
  · rw [h.pU, place_add, hpair]
  · rw [h.pV, place_add, hpair]
  · rw [h.pRgb, place_add]
    rfl
  · rw [h.pRgb, h.pY, h.pU, h.pV]
    have hpixel := paints_pixel .asign (luma mY ys) (yuv420 mU mV us vs) rs i j
    refine (h.log.append hpixel).congr fun k y => ?_
    have hfour : RgbExtraOperation.asign.components = 4 := rfl
    rw [hfour]
    unfold Scanned
    omega

theorem Yuv420Row.At.next (h : s.At mY mU mV rs ys us vs uWidth.toNat i uWidth.toNat) :
    Yuv420Row.At mY mU mV rs ys us vs uWidth.toNat (i + 1) 0
      ⟨s.pY + (ys - uWidth), s.pU + (if i &&& 1 ≠ 0 then us - uWidth >>> 1 else -(uWidth >>> 1)),
        s.pV + (if i &&& 1 ≠ 0 then vs - uWidth >>> 1 else -(uWidth >>> 1)),
        s.pRgb + (rs - 4 * uWidth), s.log⟩ := by
  have hhalf : uWidth >>> 1 = BitVec.ofNat 32 (uWidth.toNat / 2) := by
    rw [← BitVec.toNat_inj, toNat_shr, toNat_ofNat_of_lt (by omega)]
    omega
  have hwidth : uWidth = BitVec.ofNat 32 uWidth.toNat := by simp
  have hfour : 4 * uWidth = BitVec.ofNat 32 (4 * uWidth.toNat) := by
    rw [BitVec.ofNat_mul, ← hwidth]
    rfl
  constructor
  · rw [h.pY]
    nth_rewrite 2 [hwidth]
    exact place_next
  · rw [h.pU, hhalf]
    exact chroma_next _ _
  · rw [h.pV, hhalf]
    exact chroma_next _ _
  · rw [h.pRgb, hfour]
    exact place_next
  · exact h.log.congr scanned_next

/-- **`YUV420ToBGRA32`** fills the raster, with the chroma of the blocks. -/
theorem paints_YUV420ToBGRA32 :
    Paints rs (picture pixel 4 (luma mY ys) (yuv420 mU mV us vs))
      (fun i x => i < uHeight.toNat ∧ x < 4 * uWidth.toNat)
      (YUV420ToBGRA32 rs mY mU mV ys us vs uWidth uHeight) := by
  have hrows := upTo_invariant
    (fun i s =>
      let s := upTo (yuv420Pixel mY mU mV) uWidth.toNat s
      ⟨s.pY + (ys - uWidth), s.pU + (if i &&& 1 ≠ 0 then us - uWidth >>> 1 else -(uWidth >>> 1)),
        s.pV + (if i &&& 1 ≠ 0 then vs - uWidth >>> 1 else -(uWidth >>> 1)),
        s.pRgb + (rs - 4 * uWidth), s.log⟩)
    (fun i s => s.At mY mU mV rs ys us vs uWidth.toNat i 0)
    (n := uHeight.toNat) (s := (⟨0, 0, 0, 0, []⟩ : Yuv420Row)) ?_ ?_
  · refine hrows.log.congr fun i x => ?_
    rw [Nat.mul_zero, scanned_all, Nat.one_mul]
  · exact ⟨place_zero.symm, place_zero.symm, place_zero.symm, place_zero.symm,
      paints_nil not_scanned_zero⟩
  · intro i s _ hs
    have hrow := upTo_invariant (yuv420Pixel mY mU mV)
      (fun j s => s.At mY mU mV rs ys us vs uWidth.toNat i j) (n := uWidth.toNat) hs
      fun j s _ hj => hj.pixel
    exact hrow.next

end Yuv420

/-! ## The chroma of NV12 -/

section Samples

variable {rgbOpr : RgbExtraOperation} {rs ys us uWidth uHeight : BitVec 32}

/-- Every byte of every pixel is computed from its own `Y` and from the chroma pair of its two by
two block, whatever is in the planes. -/
def SamplesBlocks (rgbOpr : RgbExtraOperation) (rs ys us uWidth uHeight : BitVec 32) : Prop :=
  ∀ mY mUV : Plane, ∀ i < uHeight.toNat, ∀ j < uWidth.toNat, ∀ k < rgbOpr.components,
    lastWrite (NV12ToRGB rs rgbOpr.components mY mUV ys us uWidth uHeight rgbOpr)
        (place rs i (rgbOpr.components * j + k)) =
      some (pixel (mY (place ys i j)) (mUV (place us (i / 2) (2 * (j / 2))))
        (mUV (place us (i / 2) (2 * (j / 2) + 1))) k)

theorem nv12Drift_eq {mUV : Plane} {w i j : Nat} (hdrift : i * (w % 2) = 0) :
    nv12Drift mUV us w i j = nv12 mUV us i j := by
  have hplace : place us (i / 2) (2 * (j / 2)) + 1 =
    place us (i / 2) (2 * (j / 2) + 1) := place_add 1
  unfold nv12Drift nv12 drifted
  rw [hdrift, BitVec.sub_zero, hplace]

/-- What `NV12ToRGB` leaves, in either branch. -/
theorem lastWrite_NV12ToRGB {mY mUV : Plane}
    (hfits : Fits rs (rgbOpr.components * uWidth.toNat) uHeight.toNat) {i j k : Nat}
    (hi : i < uHeight.toNat) (hj : j < uWidth.toNat) (hk : k < rgbOpr.components) :
    lastWrite (NV12ToRGB rs rgbOpr.components mY mUV ys us uWidth uHeight rgbOpr)
        (place rs i (rgbOpr.components * j + k)) =
      some (pixel (luma mY ys i j) (nv12Drift mUV us uWidth.toNat i j).1
        (nv12Drift mUV us uWidth.toNat i j).2 k) := by
  have hx : rgbOpr.components * j + k < rgbOpr.components * uWidth.toNat := by
    have hle := Nat.mul_le_mul_left rgbOpr.components (Nat.succ_le_of_lt hj)
    rw [Nat.mul_succ] at hle
    omega
  have hbyte (chroma : Nat → Nat → BitVec 8 × BitVec 8) :
      picture pixel rgbOpr.components (luma mY ys) chroma i (rgbOpr.components * j + k) =
        pixel (luma mY ys i j) (chroma i j).1 (chroma i j).2 k := by
    rw [picture_add rgbOpr.components_pos, Nat.div_eq_of_lt hk, Nat.mod_eq_of_lt hk]
    rfl
  unfold NV12ToRGB
  split_ifs with heven
  · have hw : uWidth.toNat % 2 = 0 := (and_one_eq_zero_iff _).mp heven.1
    have hh : uHeight.toNat % 2 = 0 := (and_one_eq_zero_iff _).mp heven.2
    rw [(paints_nv12Even rgbOpr hw hh).lastWrite_eq hfits hi hx, hbyte,
      nv12Drift_eq (by rw [hw, Nat.mul_zero])]
  · rw [paints_nv12General.lastWrite_eq hfits hi hx, hbyte]

/-- **`NV12ToRGB` samples the chroma of the blocks** exactly when the width is even or there is one
row. -/
theorem NV12ToRGB_samples_iff (rgbOpr : RgbExtraOperation) (rs ys us uWidth uHeight : BitVec 32)
    (hw : 0 < uWidth.toNat) (hh : 0 < uHeight.toNat)
    (hfits : Fits rs (rgbOpr.components * uWidth.toNat) uHeight.toNat) :
    SamplesBlocks rgbOpr rs ys us uWidth uHeight ↔ uWidth.toNat % 2 = 0 ∨ uHeight.toNat = 1 := by
  constructor
  · intro h
    by_contra hodd
    obtain ⟨hwidth, hrows⟩ := not_or.mp hodd
    have hone : uWidth.toNat % 2 = 1 := by omega
    -- in row 1, `U` is read before the plane, and what is read as `V` is the first `U`
    have hread : nv12Drift (fun a => if a = 0 then 255 else 0) us uWidth.toNat 1 0 = (0, 255) := by
      simp [nv12Drift, drifted, hone, place]
    have hblock : nv12 (fun a => if a = 0 then 255 else 0) us 1 0 = (255, 0) := by
      simp [nv12, place]
    have hright := h (fun _ => 128) (fun a => if a = 0 then 255 else 0) 1 (by omega) 0 hw 0
      rgbOpr.components_pos
    rw [lastWrite_NV12ToRGB hfits (by omega) hw rgbOpr.components_pos, hread] at hright
    have hbyte : pixel 128 0 255 0 = pixel 128 255 0 0 := by
      have hchroma := Prod.mk.inj hblock
      dsimp only at hchroma
      rw [hchroma.1, hchroma.2] at hright
      exact Option.some.inj hright
    exact absurd hbyte (by decide)
  · intro h mY mUV i hi j hj k hk
    have hdrift : i * (uWidth.toNat % 2) = 0 := by
      rcases h with h | h
      · rw [h, Nat.mul_zero]
      · have hfirst : i = 0 := by omega
        rw [hfirst, Nat.zero_mul]
    rw [lastWrite_NV12ToRGB hfits hi hj hk, nv12Drift_eq hdrift]
    rfl

theorem NV12ToRGB_samples_iff_even : SamplesBlocks .nop 6 2 2 2 3 :=
  (NV12ToRGB_samples_iff .nop 6 2 2 2 3 (by decide) (by decide) (by decide)).mpr (Or.inl (by decide))

/-- Three columns and two rows: the first pixel of the second row has the chroma wrong. -/
theorem NV12ToRGB_odd_width :
    ¬ ∀ (rgbOpr : RgbExtraOperation) (rs ys us uWidth uHeight : BitVec 32), 0 < uWidth.toNat →
      0 < uHeight.toNat → Fits rs (rgbOpr.components * uWidth.toNat) uHeight.toNat →
      SamplesBlocks rgbOpr rs ys us uWidth uHeight := by
  intro h
  have hright := h .asign 12 3 4 3 2 (by decide) (by decide) (by decide) (fun _ => 128)
    (fun a => if a = 0 then 255 else 0) 1 (by decide) 0 (by decide) 0 (by decide)
  exact absurd hright (by decide +kernel)

end Samples

end TiraRdp.ImageProcess
