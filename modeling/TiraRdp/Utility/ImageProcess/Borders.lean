import Mathlib.Algebra.Order.Ring.Int
import TiraRdp.Utility.ImageProcess.Bilinear

/-!
# `ImageProcess`: the scalers with a border

`ImageScaling_Bilinear_MMX_Ex`, `ImageScaling_ThreeOrder_MMX` and
`ImageScaling_ThreeOrderTable_SSE2` (`common/utility/private/common/ImageProcess.cpp:1225-1367`,
`1582-1748`), as `Scaling` and `Bilinear` have them. A pixel of the destination is computed from a
square of the source around its position: unchecked where row and column lie between the borders,
else by a function that clamps each coordinate. A pixel is named by its row and its column, and the
square by its first row and column.

The borders of the three functions are one computation in each direction, for a `Kernel`: how far
the square reaches before and behind the position.

Result: the borders are in order and in the destination, every pixel is written once, unchecked
exactly between the borders, and what is read there is inside the source (`borders_split`).
-/

namespace TiraRdp.ImageProcess

open Lib Lib.Loop

/-- What is read around a position: `before` pixels in front of it, `after` behind it. -/
structure Kernel where
  before : Nat
  after : Nat
  before_le : before ≤ 1
  after_le : after ≤ 2

def Kernel.size (k : Kernel) : Nat := k.before + 1 + k.after

/-- The position and the next. -/
def bilinear : Kernel := ⟨0, 1, by decide, by decide⟩

/-- From the one in front of the position to the second behind it. -/
def threeOrder : Kernel := ⟨1, 2, by decide, by decide⟩

/-! ## The borders -/

/-- `-(1 << 15) + (step >> 1)`, the position of the first pixel. -/
def csDError (step : BitVec 32) : BitVec 32 := -(1#32 <<< 15) + step.sshiftRight 1

/-- `-csDError / step + 1`, or `((1 << 16) - csDError) / step + 1`, cut off at the destination. -/
def border0 (k : Kernel) (step dst : BitVec 32) : BitVec 32 :=
  let border := ((BitVec.ofNat 32 k.before <<< 16) - csDError step).sdiv step + 1
  if dst.sle border then dst else border

/-- `(((Src - 2) << 16) - csDError) / step + 1`, or with 3, but not in front of `border0`. -/
def border1 (k : Kernel) (src step border0 : BitVec 32) : BitVec 32 :=
  let border := (((src - BitVec.ofNat 32 (k.after + 1)) <<< 16) - csDError step).sdiv step + 1
  if border.slt border0 then border0 else border

/-- The position of a pixel. -/
def positionOf (step x : BitVec 32) : BitVec 32 := csDError step + x * step

section Axis

variable {k : Kernel} {src dst : BitVec 32} {x : Nat}

/-- What a step is: `Src / Dst` as a 16.16 number, rounded up. -/
structure StepUp (src dst step : BitVec 32) : Prop where
  pos : 2 < step.toInt
  lt : step.toInt < 2 ^ 31
  up : src.toInt * 65536 < dst.toInt * step.toInt
  fits : dst.toInt * step.toInt ≤ src.toInt * 65536 + dst.toInt

theorem stepUp (hsrc0 : 0 < src.toNat) (hsrc : src.toNat < 2 ^ 15) (hdst0 : 0 < dst.toNat)
    (hdst : dst.toNat < 2 ^ 15) : StepUp src dst (alignStep src dst) := by
  have hstep := toNat_alignStep hsrc hdst
  have hle : 65536 * src.toNat / dst.toNat ≤ 65536 * src.toNat := Nat.div_le_self _ _
  have hpos : 2 ≤ 65536 * src.toNat / dst.toNat := (Nat.le_div_iff_mul_le hdst0).mpr (by omega)
  have hmod := Nat.div_add_mod (65536 * src.toNat) dst.toNat
  have hrest := Nat.mod_lt (65536 * src.toNat) hdst0
  have hmul := Nat.mul_add_one dst.toNat (65536 * src.toNat / dst.toNat)
  have hs : src.toInt = src.toNat := BitVec.toInt_eq_toNat_of_lt (by omega)
  have hd : dst.toInt = dst.toNat := BitVec.toInt_eq_toNat_of_lt (by omega)
  have hr : (alignStep src dst).toInt = (alignStep src dst).toNat :=
    BitVec.toInt_eq_toNat_of_lt (by omega)
  rw [← hstep] at hmul
  refine ⟨by omega, by omega, ?_, ?_⟩
  · rw [hs, hd, hr]
    exact_mod_cast (show src.toNat * 65536 < dst.toNat * (alignStep src dst).toNat by omega)
  · rw [hs, hd, hr]
    exact_mod_cast (show dst.toNat * (alignStep src dst).toNat ≤ src.toNat * 65536 + dst.toNat by omega)

variable {step : BitVec 32}

theorem StepUp.toInt_csDError (h : StepUp src dst step) :
    (csDError step).toInt = step.toInt / 2 - 32768 := by
  have hpos := h.pos
  have hlt := h.lt
  have hhalf : (step.sshiftRight 1).toInt = step.toInt / 2 := toInt_sar step 1
  have hbase : (-(1#32 <<< 15)).toInt = -32768 := by decide
  rw [csDError, toInt_add_of_fits, hbase, hhalf]
  · omega
  · rw [hbase, hhalf]
    omega
  · rw [hbase, hhalf]
    omega

/-- A position does not wrap. -/
theorem StepUp.toInt_positionOf (h : StepUp src dst step) (hsrc : src.toInt < 2 ^ 15)
    (hdst : dst.toInt < 2 ^ 15) (hx : x < dst.toInt) :
    (positionOf step (BitVec.ofNat 32 x)).toInt = step.toInt / 2 - 32768 + x * step.toInt := by
  have hpos := h.pos
  have hup := h.up
  have hfits := h.fits
  have herror := h.toInt_csDError
  have hxi : (BitVec.ofNat 32 x).toInt = x := toInt_ofNat_of_lt (by omega)
  have hlast : ((x : Int) + 1) * step.toInt ≤ dst.toInt * step.toInt :=
    Int.mul_le_mul_of_nonneg_right (by omega) (by omega)
  rw [Int.add_mul, Int.one_mul] at hlast
  have hnonneg : 0 ≤ (x : Int) * step.toInt := Int.mul_nonneg (by omega) (by omega)
  have hmul : (BitVec.ofNat 32 x * step).toInt = x * step.toInt := by
    rw [BitVec.toInt_mul, hxi]
    exact Int.bmod_eq_of_le (by omega) (by omega)
  rw [positionOf, toInt_add_of_fits, herror, hmul]
  · rw [herror, hmul]
    omega
  · rw [herror, hmul]
    omega

/-- In one direction: the borders are in order and in the destination, and between them what is read
around a position is in the source. -/
structure Split (k : Kernel) (src dst step b0 b1 : BitVec 32) : Prop where
  nonneg : 0 ≤ b0.toInt
  ordered : b0.toInt ≤ b1.toInt
  bounded : b1.toInt ≤ dst.toInt
  inside : ∀ x : Nat, b0.toInt ≤ x → x < b1.toInt →
    (positionOf step (BitVec.ofNat 32 x)).toInt = step.toInt / 2 - 32768 + x * step.toInt ∧
      k.before ≤ (positionOf step (BitVec.ofNat 32 x)).toInt / 65536 ∧
      (positionOf step (BitVec.ofNat 32 x)).toInt / 65536 + k.after < src.toInt

/-- The number that `border0` divides. -/
theorem StepUp.toInt_first (h : StepUp src dst step) (k : Kernel) :
    ((BitVec.ofNat 32 k.before <<< 16) - csDError step).toInt =
      k.before * 65536 - (step.toInt / 2 - 32768) := by
  have hpos := h.pos
  have hlt := h.lt
  have hle := k.before_le
  have herror := h.toInt_csDError
  have hbefore : (BitVec.ofNat 32 k.before).toInt = k.before := toInt_ofNat_of_lt (by omega)
  have hshift : (BitVec.ofNat 32 k.before <<< 16).toInt = k.before * 65536 := by
    rw [toInt_shl_of_fits, hbefore]
    · rfl
    · rw [hbefore]
      omega
    · rw [hbefore]
      omega
  rw [toInt_sub_of_fits, hshift, herror]
  · rw [hshift, herror]
    omega
  · rw [hshift, herror]
    omega

/-- The number that `border1` divides. -/
theorem StepUp.toInt_last (h : StepUp src dst step) (k : Kernel) (hsrc0 : 0 < src.toInt)
    (hsrc : src.toInt < 2 ^ 15) :
    (((src - BitVec.ofNat 32 (k.after + 1)) <<< 16) - csDError step).toInt =
      (src.toInt - (k.after + 1)) * 65536 - (step.toInt / 2 - 32768) := by
  have hpos := h.pos
  have hlt := h.lt
  have hle := k.after_le
  have herror := h.toInt_csDError
  have hafter : (BitVec.ofNat 32 (k.after + 1)).toInt = k.after + 1 := by
    rw [toInt_ofNat_of_lt (by omega)]
    rfl
  have hsub : (src - BitVec.ofNat 32 (k.after + 1)).toInt = src.toInt - (k.after + 1) := by
    rw [toInt_sub_of_fits, hafter]
    · rw [hafter]
      omega
    · rw [hafter]
      omega
  have hshift : ((src - BitVec.ofNat 32 (k.after + 1)) <<< 16).toInt =
      (src.toInt - (k.after + 1)) * 65536 := by
    rw [toInt_shl_of_fits, hsub]
    · rfl
    · rw [hsub]
      omega
    · rw [hsub]
      omega
  rw [toInt_sub_of_fits, hshift, herror]
  · rw [hshift, herror]
    omega
  · rw [hshift, herror]
    omega

/-- **The borders of one direction.** -/
theorem StepUp.split (h : StepUp src dst step) (k : Kernel) (hsrc0 : 0 < src.toInt)
    (hsrc : src.toInt < 2 ^ 15) (hdst0 : 0 < dst.toInt) (hdst : dst.toInt < 2 ^ 15) :
    Split k src dst step (border0 k step dst) (border1 k src step (border0 k step dst)) := by
  have hpos := h.pos
  have hup := h.up
  have hstep : 0 < step.toInt := by omega
  have hbefore := k.before_le
  -- the two quotients
  generalize hn0 : (k.before : Int) * 65536 - (step.toInt / 2 - 32768) = n0
  generalize hn1 : (src.toInt - (k.after + 1)) * 65536 - (step.toInt / 2 - 32768) = n1
  have hfirst := (h.toInt_first k).trans hn0
  have hlast := (h.toInt_last k hsrc0 hsrc).trans hn1
  have ht0 : 0 ≤ n0.tdiv step.toInt := tdiv_nonneg_of_neg_lt hstep (by omega)
  have ht1 : n1.tdiv step.toInt + 1 ≤ dst.toInt := tdiv_lt_of_lt_mul hstep hdst0 (by omega)
  have hb0 : (border0 k step dst).toInt = min dst.toInt (n0.tdiv step.toInt + 1) := by
    have hquotient := toInt_sdiv_add_one (a := (BitVec.ofNat 32 k.before <<< 16) - csDError step)
      (b := step) (by omega)
    rw [hfirst] at hquotient
    unfold border0
    simp only [BitVec.sle_iff_toInt_le, hquotient]
    split_ifs with hle
    · omega
    · omega
  have hb1 : (border1 k src step (border0 k step dst)).toInt =
      max (border0 k step dst).toInt (n1.tdiv step.toInt + 1) := by
    have hquotient := toInt_sdiv_add_one
      (a := ((src - BitVec.ofNat 32 (k.after + 1)) <<< 16) - csDError step) (b := step) (by omega)
    rw [hlast] at hquotient
    unfold border1
    simp only [BitVec.slt_iff_toInt_lt, hquotient]
    split_ifs with hlt
    · omega
    · omega
  refine ⟨by omega, by omega, by omega, fun x hlo hhi => ?_⟩
  have hposition := h.toInt_positionOf hsrc hdst (x := x) (by omega)
  have habove : n0 < x * step.toInt := lt_mul_of_tdiv_lt hstep (by omega) (by omega)
  have hbelow : x * step.toInt ≤ n1 := mul_le_of_le_tdiv hstep (by omega) (by omega)
  rw [hposition]
  refine ⟨rfl, by omega, by omega⟩

theorem borders (hsrc0 : 0 < src.toNat) (hsrc : src.toNat < 2 ^ 15) (hdst0 : 0 < dst.toNat)
    (hdst : dst.toNat < 2 ^ 15) (k : Kernel) :
    Split k src dst (alignStep src dst) (border0 k (alignStep src dst) dst)
      (border1 k src (alignStep src dst) (border0 k (alignStep src dst) dst)) := by
  have hs : src.toInt = src.toNat := BitVec.toInt_eq_toNat_of_lt (by omega)
  have hd : dst.toInt = dst.toNat := BitVec.toInt_eq_toNat_of_lt (by omega)
  exact (stepUp hsrc0 hsrc hdst0 hdst).split k (by omega) (by omega) (by omega) (by omega)

end Axis

/-! ## The loops -/

/-- A pixel of a row: the first column of its square, and whether that is read unchecked. -/
structure BorderColumn where
  x : BitVec 32
  left : BitVec 32
  fast : Bool
  deriving Repr, DecidableEq

/-- A pixel of the destination: the first row and column of its square. -/
structure BorderPixel where
  y : Nat
  x : BitVec 32
  top : BitVec 32
  left : BitVec 32
  fast : Bool
  deriving Repr, DecidableEq

/-- The loop over a row: `srcx_16`, and what has been written. -/
structure RowState where
  srcx_16 : BitVec 32
  written : List BorderColumn

/-- The loop over the lines; `line` is the row that `pDstLine` points to. -/
structure LineState where
  line : Nat
  srcy_16 : BitVec 32
  written : List BorderPixel

/-- `for (x = first; x < last; ++x)` on `long`s. -/
def forLong {σ : Type} (first last : BitVec 32) (body : BitVec 32 → σ → σ) (s : σ) : σ :=
  upTo (fun i s => body (first + BitVec.ofNat 32 i) s) (last.toInt - first.toInt).toNat s

/-- The same loop where `last` is an `unsigned long`. -/
def forUnsigned {σ : Type} (first last : BitVec 32) (body : BitVec 32 → σ → σ) (s : σ) : σ :=
  upTo (fun i s => body (first + BitVec.ofNat 32 i) s) (last.toNat - first.toNat) s

/-- The first coordinate of a square that a `…_Border_MMX` reads: `(x_16 >> 16)`, or that less 1. -/
def borderFirst (k : Kernel) (x_16 : BitVec 32) : BitVec 32 :=
  x_16.sshiftRight 16 - BitVec.ofNat 32 k.before

/-- The first coordinate where the assembly reads: `shr eax, 16`, and `dec eax`. -/
def fastFirst (k : Kernel) (x_16 : BitVec 32) : BitVec 32 :=
  (x_16 >>> 16) - BitVec.ofNat 32 k.before

def borderColumn (k : Kernel) (x srcx_16 : BitVec 32) : BorderColumn :=
  ⟨x, borderFirst k srcx_16, false⟩

def fastColumn (k : Kernel) (x srcx_16 : BitVec 32) : BorderColumn := ⟨x, fastFirst k srcx_16, true⟩

def writeColumn (column : BitVec 32 → BitVec 32 → BorderColumn) (xrIntFloat_16 x : BitVec 32)
    (s : RowState) : RowState :=
  ⟨s.srcx_16 + xrIntFloat_16, s.written ++ [column x s.srcx_16]⟩

/-- A row outside the borders. -/
def borderRow (k : Kernel) (xrIntFloat_16 dst_width : BitVec 32) : List BorderColumn :=
  (forUnsigned 0 dst_width (writeColumn (borderColumn k) xrIntFloat_16)
    ⟨csDError xrIntFloat_16, []⟩).written

/-- `loop_start` of the bilinear assembly. -/
def bilinearFast (xrIntFloat_16 : BitVec 32) (r : RowRegs BorderColumn) : RowRegs BorderColumn :=
  { r with
    counter := r.counter + 1
    srcx_16 := r.srcx_16 + xrIntFloat_16
    written := r.written ++ [fastColumn bilinear (r.edi + r.counter) r.srcx_16] }

/-- A row of `ImageScaling_Bilinear_MMX_Ex` between the borders. -/
def bilinearMMXRow (fuel : Nat) (xrIntFloat_16 dst_width border_x0 border_x1 : BitVec 32) :
    Option (List BorderColumn) :=
  let left := forLong 0 border_x0 (writeColumn (borderColumn bilinear) xrIntFloat_16)
    ⟨csDError xrIntFloat_16, []⟩
  (countUp fuel 1 (border_x1 - border_x0) (bilinearFast xrIntFloat_16)
    ⟨border_x0, 0, left.srcx_16, left.written⟩).map fun r =>
      (forUnsigned border_x1 dst_width (writeColumn (borderColumn bilinear) xrIntFloat_16)
        ⟨r.srcx_16, r.written⟩).written

/-- A row of `ImageScaling_ThreeOrder_MMX` between the borders. -/
def threeOrderMMXRow (xrIntFloat_16 dst_width border_x0 border_x1 : BitVec 32) :
    List BorderColumn :=
  let left := forLong 0 border_x0 (writeColumn (borderColumn threeOrder) xrIntFloat_16)
    ⟨csDError xrIntFloat_16, []⟩
  let middle := forLong border_x0 border_x1 (writeColumn (fastColumn threeOrder) xrIntFloat_16) left
  (forUnsigned border_x1 dst_width (writeColumn (borderColumn threeOrder) xrIntFloat_16) middle).written

/-- `init u table`: `srcx_16`, and `xList`. -/
def initXList (dst_width xrIntFloat_16 : BitVec 32) : List (BitVec 32) :=
  (upTo (fun _ (s : BitVec 32 × List (BitVec 32)) =>
    (s.1 + xrIntFloat_16, s.2 ++ [s.1.sshiftRight 16 - 1])) dst_width.toNat
    (csDError xrIntFloat_16, [])).2

/-- The pixels of a row from `first` up to `last`, from the table. -/
def tableColumns (xList : List (BitVec 32)) (fast : Bool) (first last : BitVec 32)
    (written : List BorderColumn) : List BorderColumn :=
  forLong first last (fun x written => written ++ [⟨x, xList.getD x.toNat 0, fast⟩]) written

/-- A row of `ImageScaling_ThreeOrderTable_SSE2` between the borders. -/
def threeOrderTableRow (xList : List (BitVec 32)) (dst_width border_x0 border_x1 : BitVec 32) :
    List BorderColumn :=
  let left := tableColumns xList false 0 border_x0 []
  let middle := tableColumns xList true border_x0 border_x1 left
  tableColumns xList false border_x1 dst_width middle

/-- A pixel of the line: `srcy_16` gives the first row of its square. -/
def toBorderPixel (fastTop borderTop : BitVec 32 → BitVec 32) (line : Nat) (srcy_16 : BitVec 32)
    (c : BorderColumn) : BorderPixel :=
  ⟨line, c.x, if c.fast then fastTop srcy_16 else borderTop srcy_16, c.left, c.fast⟩

/-- A row written, `fastTop` and `borderTop` being how the assembly and the border start. -/
def writeLine (fastTop borderTop : BitVec 32 → BitVec 32) (yrIntFloat_16 : BitVec 32)
    (row : List BorderColumn) (s : LineState) : LineState where
  line := s.line + 1
  srcy_16 := s.srcy_16 + yrIntFloat_16
  written := s.written ++ row.map (toBorderPixel fastTop borderTop s.line s.srcy_16)

/-- The loops over the lines of the MMX versions. -/
def threeParts (fastTop borderTop : BitVec 32 → BitVec 32)
    (yrIntFloat_16 height border_y0 border_y1 :
    BitVec 32) (border row : List BorderColumn) : List BorderPixel :=
  let write (row : List BorderColumn) (_ : BitVec 32) :=
    writeLine fastTop borderTop yrIntFloat_16 row
  let upper := forLong 0 border_y0 (write border) ⟨0, csDError yrIntFloat_16, []⟩
  let middle := forLong border_y0 border_y1 (write row) upper
  (forLong border_y1 height (write border) middle).written

section Scalers

variable (Dst Src : Bgra32Rect) (k : Kernel)

def border_x0 : BitVec 32 := border0 k (alignStep Src.width Dst.width) Dst.width

def border_x1 : BitVec 32 :=
  border1 k Src.width (alignStep Src.width Dst.width) (border_x0 Dst Src k)

def border_y0 : BitVec 32 := border0 k (alignStep Src.height Dst.height) Dst.height

def border_y1 : BitVec 32 :=
  border1 k Src.height (alignStep Src.height Dst.height) (border_y0 Dst Src k)

def ImageScaling_Bilinear_MMX_Ex (fuel : Nat) : Option (List BorderPixel) :=
  if Dst.empty || Src.empty then some []
  else
    let xrIntFloat_16 := alignStep Src.width Dst.width
    (bilinearMMXRow fuel xrIntFloat_16 Dst.width (border_x0 Dst Src bilinear)
      (border_x1 Dst Src bilinear)).map fun row =>
        -- `Src_byte_width * (srcy_16 >> 16)` on a `long`
        threeParts (borderFirst bilinear) (borderFirst bilinear) (alignStep Src.height Dst.height)
          Dst.height (border_y0 Dst Src bilinear) (border_y1 Dst Src bilinear)
          (borderRow bilinear xrIntFloat_16 Dst.width) row

def ImageScaling_ThreeOrder_MMX : List BorderPixel :=
  if Dst.empty || Src.empty then []
  else
    let xrIntFloat_16 := alignStep Src.width Dst.width
    threeParts (fastFirst threeOrder) (borderFirst threeOrder) (alignStep Src.height Dst.height)
      Dst.height (border_y0 Dst Src threeOrder) (border_y1 Dst Src threeOrder)
      (borderRow threeOrder xrIntFloat_16 Dst.width)
      (threeOrderMMXRow xrIntFloat_16 Dst.width (border_x0 Dst Src threeOrder)
        (border_x1 Dst Src threeOrder))

def ImageScaling_ThreeOrderTable_SSE2 : List BorderPixel :=
  if Dst.empty || Src.empty then []
  else
    let xList := initXList Dst.width (alignStep Src.width Dst.width)
    let border := tableColumns xList false 0 Dst.width []
    let row := threeOrderTableRow xList Dst.width (border_x0 Dst Src threeOrder)
      (border_x1 Dst Src threeOrder)
    let yrIntFloat_16 := alignStep Src.height Dst.height
    -- `srcy_sub1` for both
    let write := writeLine (borderFirst threeOrder) (borderFirst threeOrder) yrIntFloat_16
    (forLong 0 Dst.height (fun y s =>
      if y.slt (border_y0 Dst Src threeOrder) || (border_y1 Dst Src threeOrder).sle y then
        write border s
      else write row s) ⟨0, csDError yrIntFloat_16, []⟩).written

end Scalers

/-! ## What is written -/

/-- From the first border up to the second. -/
def between (b0 b1 : BitVec 32) (x : Nat) : Bool := decide (b0.toInt ≤ x ∧ x < b1.toInt)

/-- A pixel of a row: unchecked between the borders. -/
def splitColumn (k : Kernel) (step b0 b1 : BitVec 32) (x : Nat) : BorderColumn :=
  ⟨BitVec.ofNat 32 x, borderFirst k (positionOf step (BitVec.ofNat 32 x)), between b0 b1 x⟩

/-- The pixels of a row. -/
def splitRow (k : Kernel) (step b0 b1 : BitVec 32) (p : Nat) : List BorderColumn :=
  (List.range p).map (splitColumn k step b0 b1)

section Rows

variable {k : Kernel} {src dst step b0 b1 : BitVec 32} {p n : Nat}

/-- Where the borders are, as numbers. -/
theorem Split.toNat (h : Split k src dst step b0 b1) (hdst : dst.toNat < 2 ^ 15) :
    (b0.toNat : Int) = b0.toInt ∧ (b1.toNat : Int) = b1.toInt ∧ b0.toNat ≤ b1.toNat ∧
      b1.toNat ≤ dst.toNat := by
  obtain ⟨hnonneg, hordered, hbounded, -⟩ := h
  have hd : dst.toInt = dst.toNat := BitVec.toInt_eq_toNat_of_lt (by omega)
  have hnat (b : BitVec 32) (hb : 0 ≤ b.toInt) : (b.toNat : Int) = b.toInt := by
    have hmsb := BitVec.toInt_eq_toNat_cond b
    have hlt := b.isLt
    split_ifs at hmsb <;> omega
  have h0 := hnat b0 hnonneg
  have h1 := hnat b1 (by omega)
  omega

/-- Between the borders the assembly and the border function start from the same coordinate. -/
theorem Split.fastFirst_eq (h : Split k src dst step b0 b1) {x : Nat}
    (hx : between b0 b1 x = true) :
    fastFirst k (positionOf step (BitVec.ofNat 32 x)) =
      borderFirst k (positionOf step (BitVec.ofNat 32 x)) := by
  obtain ⟨hlo, hhi⟩ := of_decide_eq_true hx
  obtain ⟨-, hinside, -⟩ := h.inside x hlo hhi
  have hmsb : (positionOf step (BitVec.ofNat 32 x)).msb = false := by
    rw [BitVec.msb_eq_toInt, decide_eq_false_iff_not]
    omega
  rw [fastFirst, borderFirst, BitVec.sshiftRight_eq_of_msb_false hmsb]

/-- The pixels up to `p` are written. -/
structure RowState.UpTo (k : Kernel) (step b0 b1 : BitVec 32) (p : Nat) (s : RowState) : Prop where
  srcx_16 : s.srcx_16 = positionOf step (BitVec.ofNat 32 p)
  written : s.written = splitRow k step b0 b1 p

theorem positionOf_add (step : BitVec 32) (p i : Nat) :
    positionOf step (BitVec.ofNat 32 (p + i)) =
      positionOf step (BitVec.ofNat 32 p) + BitVec.ofNat 32 i * step := by
  unfold positionOf
  rw [BitVec.ofNat_add]
  grind

theorem positionOf_succ (step : BitVec 32) (p : Nat) :
    positionOf step (BitVec.ofNat 32 p) + step = positionOf step (BitVec.ofNat 32 (p + 1)) := by
  rw [positionOf_add]
  simp

theorem splitRow_succ (p : Nat) :
    splitRow k step b0 b1 (p + 1) = splitRow k step b0 b1 p ++ [splitColumn k step b0 b1 p] := by
  unfold splitRow
  rw [List.range_succ, List.map_append]
  rfl

theorem splitRow_add (p n : Nat) : splitRow k step b0 b1 (p + n) =
    splitRow k step b0 b1 p ++ (List.range n).map fun i => splitColumn k step b0 b1 (p + i) := by
  unfold splitRow
  rw [List.range_add, List.map_append, List.map_map]
  rfl

theorem RowState.UpTo.start (k : Kernel) (step b0 b1 : BitVec 32) :
    RowState.UpTo k step b0 b1 0 ⟨csDError step, []⟩ where
  srcx_16 := by simp [positionOf]
  written := rfl

/-- A loop over pixels that are what they should be. -/
theorem RowState.UpTo.writeColumns {s : RowState} (h : s.UpTo k step b0 b1 p) (n : Nat)
    (column : BitVec 32 → BitVec 32 → BorderColumn) {first : BitVec 32}
    (hfirst : first = BitVec.ofNat 32 p)
    (hcolumn : ∀ x, p ≤ x → x < p + n → column (BitVec.ofNat 32 x)
      (positionOf step (BitVec.ofNat 32 x)) = splitColumn k step b0 b1 x) :
    RowState.UpTo k step b0 b1 (p + n)
      (upTo (fun i s => writeColumn column step (first + BitVec.ofNat 32 i) s) n s) := by
  subst hfirst
  refine upTo_invariant _ (fun i s => RowState.UpTo k step b0 b1 (p + i) s) h ?_
  rintro i t hi ⟨hsrcx, hwritten⟩
  constructor
  · show t.srcx_16 + step = _
    rw [hsrcx, positionOf_succ, Nat.add_assoc]
  · show t.written ++ [_] = _
    rw [← Nat.add_assoc, splitRow_succ, hwritten, hsrcx, ← BitVec.ofNat_add,
      hcolumn (p + i) (by omega) (by omega)]

theorem borderColumn_eq {x : Nat} (hx : between b0 b1 x = false) :
    borderColumn k (BitVec.ofNat 32 x) (positionOf step (BitVec.ofNat 32 x)) =
      splitColumn k step b0 b1 x := by
  rw [borderColumn, splitColumn, hx]

theorem Split.fastColumn_eq (h : Split k src dst step b0 b1) {x : Nat}
    (hx : between b0 b1 x = true) :
    fastColumn k (BitVec.ofNat 32 x) (positionOf step (BitVec.ofNat 32 x)) =
      splitColumn k step b0 b1 x := by
  rw [fastColumn, splitColumn, hx, h.fastFirst_eq hx]

/-- A row of the border has nothing between the borders. -/
theorem borderRow_eq (k : Kernel) (step dst : BitVec 32) :
    borderRow k step dst = splitRow k step 0#32 0#32 dst.toNat := by
  have hloop := (RowState.UpTo.start k step 0#32 0#32).writeColumns dst.toNat (borderColumn k) rfl
    fun x _ _ => borderColumn_eq (by simp [between])
  rw [Nat.zero_add] at hloop
  exact hloop.written

/-- What is in the table. -/
theorem initXList_getD (step : BitVec 32) {x : Nat} (hx : x < dst.toNat) :
    (initXList dst step).getD x 0 =
      borderFirst threeOrder (positionOf step (BitVec.ofNat 32 x)) := by
  have htable : initXList dst step = (List.range dst.toNat).map fun x =>
      borderFirst threeOrder (positionOf step (BitVec.ofNat 32 x)) := by
    have hinv := upTo_invariant
      (fun _ (s : BitVec 32 × List (BitVec 32)) => (s.1 + step, s.2 ++ [s.1.sshiftRight 16 - 1]))
      (fun i s => s.1 = positionOf step (BitVec.ofNat 32 i) ∧ s.2 = (List.range i).map fun x =>
        borderFirst threeOrder (positionOf step (BitVec.ofNat 32 x)))
      (n := dst.toNat) (s := (csDError step, [])) ?_ ?_
    · exact hinv.2
    · exact ⟨by simp [positionOf], rfl⟩
    · rintro i s - ⟨hsrcx, hlist⟩
      constructor
      · rw [hsrcx, positionOf_succ]
      · rw [hsrcx, hlist, List.range_succ, List.map_append]
        rfl
  rw [htable, List.getD_eq_getElem?_getD]
  simp [hx]

/-- The pixels of a part of a row that are all unchecked or all not. -/
theorem tableColumns_eq (step b0 b1 : BitVec 32) (hdst : dst.toNat < 2 ^ 15) (fast : Bool)
    {first last : BitVec 32} (hfirst : first = BitVec.ofNat 32 p)
    (hcount : (last.toInt - first.toInt).toNat = n) (hlt : p + n ≤ dst.toNat)
    (hfast : ∀ x, p ≤ x → x < p + n → between b0 b1 x = fast) :
    tableColumns (initXList dst step) fast first last (splitRow threeOrder step b0 b1 p) =
      splitRow threeOrder step b0 b1 (p + n) := by
  unfold tableColumns forLong
  rw [hcount]
  refine upTo_invariant _ (fun i written => written = splitRow threeOrder step b0 b1 (p + i)) rfl ?_
  rintro i written hi rfl
  have hindex : (BitVec.ofNat 32 (p + i)).toNat = p + i := toNat_ofNat_of_lt (by omega)
  rw [← Nat.add_assoc, splitRow_succ, splitColumn, hfirst, ← BitVec.ofNat_add,
    hfast (p + i) (by omega) (by omega)]
  dsimp only
  rw [hindex, initXList_getD step (by omega)]

section Parts

variable (h : Split k src dst step b0 b1) (hdst : dst.toNat < 2 ^ 15)

include h hdst

/-- The three parts of a row: before the borders, between them, behind them. -/
theorem Split.counts : (b0.toInt - (0#32).toInt).toNat = b0.toNat ∧
    (b1.toInt - b0.toInt).toNat = b1.toNat - b0.toNat ∧
    (dst.toInt - b1.toInt).toNat = dst.toNat - b1.toNat ∧
    b0.toNat + (b1.toNat - b0.toNat) = b1.toNat ∧
      b1.toNat + (dst.toNat - b1.toNat) = dst.toNat := by
  obtain ⟨h0, h1, hle, hlast⟩ := h.toNat hdst
  have hd : dst.toInt = dst.toNat := BitVec.toInt_eq_toNat_of_lt (by omega)
  have hzero : (0#32).toInt = 0 := rfl
  omega

theorem Split.between_iff (x : Nat) :
    between b0 b1 x = true ↔ b0.toNat ≤ x ∧ x < b1.toNat := by
  obtain ⟨h0, h1, -, -⟩ := h.toNat hdst
  rw [between, decide_eq_true_iff]
  omega

theorem Split.not_between_iff (x : Nat) :
    between b0 b1 x = false ↔ x < b0.toNat ∨ b1.toNat ≤ x := by
  rw [Bool.eq_false_iff, Ne, h.between_iff hdst]
  omega

/-- The part in front of the borders. -/
theorem Split.left : RowState.UpTo k step b0 b1 b0.toNat
    (forLong 0 b0 (writeColumn (borderColumn k) step) ⟨csDError step, []⟩) := by
  obtain ⟨hleft, -⟩ := h.counts hdst
  have hloop := (RowState.UpTo.start k step b0 b1).writeColumns b0.toNat (borderColumn k) rfl
    fun x _ hx => borderColumn_eq ((h.not_between_iff hdst x).mpr (by omega))
  rw [Nat.zero_add] at hloop
  unfold forLong
  rw [show (0 : BitVec 32) = 0#32 from rfl, hleft]
  exact hloop

/-- The part behind the borders. -/
theorem Split.right {s : RowState} (hs : s.UpTo k step b0 b1 b1.toNat) :
    (forUnsigned b1 dst (writeColumn (borderColumn k) step) s).written =
      splitRow k step b0 b1 dst.toNat := by
  obtain ⟨-, -, -, -, hright⟩ := h.counts hdst
  have hfirst : b1 = BitVec.ofNat 32 b1.toNat := by simp
  have hloop := hs.writeColumns (dst.toNat - b1.toNat) (borderColumn k) hfirst
    fun x hx _ => borderColumn_eq ((h.not_between_iff hdst x).mpr (by omega))
  rw [hright] at hloop
  exact hloop.written

theorem threeOrderMMXRow_eq (hk : k = threeOrder) :
    threeOrderMMXRow step dst b0 b1 = splitRow k step b0 b1 dst.toNat := by
  obtain ⟨-, hmiddle, -, hsum, -⟩ := h.counts hdst
  have hfirst : b0 = BitVec.ofNat 32 b0.toNat := by simp
  have hloop := (h.left hdst).writeColumns (b1.toNat - b0.toNat) (fastColumn k) hfirst
    fun x hlo hhi => h.fastColumn_eq ((h.between_iff hdst x).mpr (by omega))
  rw [hsum] at hloop
  have hright := h.right hdst hloop
  subst hk
  rw [← hright, threeOrderMMXRow, forLong, forLong, hmiddle]

theorem bilinearMMXRow_eq (hk : k = bilinear) {fuel : Nat} (hfuel : dst.toNat ≤ fuel) :
    bilinearMMXRow fuel step dst b0 b1 = some (splitRow k step b0 b1 dst.toNat) := by
  obtain ⟨-, -, hle, hlast⟩ := h.toNat hdst
  have hleft := h.left hdst
  generalize hs : forLong 0 b0 (writeColumn (borderColumn k) step) ⟨csDError step, []⟩ = s at hleft
  obtain ⟨n, hn⟩ : ∃ n, b1.toNat = b0.toNat + n := ⟨_, (Nat.add_sub_of_le hle).symm⟩
  have hwidth : b1 - b0 = BitVec.ofNat 32 (1 * n) := by
    have hsub := ofNat_sub_ofNat hle
    rw [BitVec.ofNat_toNat, BitVec.ofNat_toNat, BitVec.setWidth_eq, BitVec.setWidth_eq] at hsub
    rw [hsub, hn, Nat.add_sub_cancel_left, Nat.one_mul]
  have hbody : bilinearFast step = round 1 1 step (fastColumn bilinear) := by
    funext r
    simp [bilinearFast, round]
  obtain ⟨t, ht, -, hsrcx, hwritten⟩ := countUp_rounds step (fastColumn bilinear) fuel
    (u := 1) (d := 1) (k := n) (by decide) (by decide) (by omega) (by omega)
    ⟨b0, 0, s.srcx_16, s.written⟩
  have hfast : onward 1 step (fastColumn bilinear) b0 s.srcx_16 n =
      (List.range n).map fun i => splitColumn k step b0 b1 (b0.toNat + i) := by
    unfold onward
    rw [List.map_inj_left]
    intro i hi
    rw [List.mem_range] at hi
    rw [Nat.one_mul, hleft.srcx_16, ← positionOf_add, ← h.fastColumn_eq, BitVec.ofNat_add,
      BitVec.ofNat_toNat, BitVec.setWidth_eq, hk]
    exact (h.between_iff hdst _).mpr (by omega)
  have hmiddle : RowState.UpTo k step b0 b1 b1.toNat ⟨t.srcx_16, t.written⟩ := by
    constructor
    · show t.srcx_16 = _
      rw [hsrcx, hleft.srcx_16, ← positionOf_add, Nat.one_mul, hn]
    · show t.written = _
      rw [hwritten, hleft.written, Nat.one_mul, hfast, hn, splitRow_add]
  have hright := h.right hdst hmiddle
  subst hk
  rw [bilinearMMXRow, hs, hwidth, hbody, ht, Option.map_some, hright]

theorem threeOrderTableRow_eq (hk : k = threeOrder) :
    threeOrderTableRow (initXList dst step) dst b0 b1 = splitRow k step b0 b1 dst.toNat := by
  subst hk
  obtain ⟨hleft, hmiddle, hright, hsum, hend⟩ := h.counts hdst
  have h0 : b0 = BitVec.ofNat 32 b0.toNat := by simp
  have h1 : b1 = BitVec.ofNat 32 b1.toNat := by simp
  have hfirst : tableColumns (initXList dst step) false 0 b0 [] =
      splitRow threeOrder step b0 b1 b0.toNat := by
    have htable := tableColumns_eq (p := 0) step b0 b1 hdst false rfl hleft (by omega)
      fun x _ hx => (h.not_between_iff hdst x).mpr (by omega)
    rw [Nat.zero_add] at htable
    exact htable
  have hsecond := tableColumns_eq step b0 b1 hdst true h0 hmiddle (by omega)
    fun x hlo hhi => (h.between_iff hdst x).mpr (by omega)
  have hthird := tableColumns_eq step b0 b1 hdst false h1 hright (by omega)
    fun x hlo _ => (h.not_between_iff hdst x).mpr (by omega)
  rw [hsum] at hsecond
  rw [hend] at hthird
  rw [threeOrderTableRow, hfirst, hsecond, hthird]

end Parts

end Rows

/-! ## The images -/

/-- A pixel of the destination: unchecked between the borders of both directions. -/
def splitPixel (Dst Src : Bgra32Rect) (k : Kernel) (y x : Nat) : BorderPixel where
  y := y
  x := BitVec.ofNat 32 x
  top := borderFirst k (positionOf (alignStep Src.height Dst.height) (BitVec.ofNat 32 y))
  left := borderFirst k (positionOf (alignStep Src.width Dst.width) (BitVec.ofNat 32 x))
  fast := between (border_x0 Dst Src k) (border_x1 Dst Src k) x &&
    between (border_y0 Dst Src k) (border_y1 Dst Src k) y

/-- The pixels of the first `p` lines. -/
def splitLines (Dst Src : Bgra32Rect) (k : Kernel) (p : Nat) : List BorderPixel :=
  (List.range p).flatMap fun y => (List.range Dst.width.toNat).map (splitPixel Dst Src k y)

section Images

variable {Dst Src : Bgra32Rect} {k : Kernel} {p n : Nat} {fastTop borderTop : BitVec 32 → BitVec 32}

theorem Bgra32Rect.Sized.split_x (hDst : Dst.Sized) (hSrc : Src.Sized) (k : Kernel) :
    Split k Src.width Dst.width (alignStep Src.width Dst.width) (border_x0 Dst Src k)
      (border_x1 Dst Src k) :=
  borders hSrc.width_pos hSrc.width_lt hDst.width_pos hDst.width_lt k

theorem Bgra32Rect.Sized.split_y (hDst : Dst.Sized) (hSrc : Src.Sized) (k : Kernel) :
    Split k Src.height Dst.height (alignStep Src.height Dst.height) (border_y0 Dst Src k)
      (border_y1 Dst Src k) :=
  borders hSrc.height_pos hSrc.height_lt hDst.height_pos hDst.height_lt k

/-- The first `p` lines are written. -/
structure LineState.UpTo (Dst Src : Bgra32Rect) (k : Kernel) (p : Nat) (s : LineState) : Prop where
  line : s.line = p
  srcy_16 : s.srcy_16 = positionOf (alignStep Src.height Dst.height) (BitVec.ofNat 32 p)
  written : s.written = splitLines Dst Src k p

theorem LineState.UpTo.start (Dst Src : Bgra32Rect) (k : Kernel) :
    LineState.UpTo Dst Src k 0 ⟨0, csDError (alignStep Src.height Dst.height), []⟩ where
  line := rfl
  srcy_16 := by simp [positionOf]
  written := rfl

/-- The rows that are what line `y` should be. -/
def IsLine (Dst Src : Bgra32Rect) (k : Kernel) (fastTop borderTop : BitVec 32 → BitVec 32)
    (row : List BorderColumn) (y : Nat) : Prop :=
  row.map (toBorderPixel fastTop borderTop y
    (positionOf (alignStep Src.height Dst.height) (BitVec.ofNat 32 y))) =
      (List.range Dst.width.toNat).map (splitPixel Dst Src k y)

theorem LineState.UpTo.writeLine {row : List BorderColumn} {s : LineState} (h : s.UpTo Dst Src k p)
    (hrow : IsLine Dst Src k fastTop borderTop row p) : LineState.UpTo Dst Src k (p + 1)
      (writeLine fastTop borderTop (alignStep Src.height Dst.height) row s) := by
  obtain ⟨hline, hsrcy, hwritten⟩ := h
  constructor
  · exact congrArg (· + 1) hline
  · show s.srcy_16 + _ = _
    rw [hsrcy, positionOf_succ]
  · show s.written ++ row.map _ = _
    rw [hline, hsrcy, hrow, hwritten, splitLines, splitLines, List.range_succ, List.flatMap_append]
    simp

/-- A loop over lines that are what they should be. -/
theorem LineState.UpTo.writeLines {s : LineState} (h : s.UpTo Dst Src k p)
    (fastTop borderTop : BitVec 32 → BitVec 32) (row : BitVec 32 → List BorderColumn)
    {first last : BitVec 32} (hcount : (last.toInt - first.toInt).toNat = n)
    (hfirst : first = BitVec.ofNat 32 p)
    (hrow : ∀ y, p ≤ y → y < p + n → IsLine Dst Src k fastTop borderTop (row (BitVec.ofNat 32 y)) y) :
    LineState.UpTo Dst Src k (p + n) (forLong first last
      (fun y s => ImageProcess.writeLine fastTop borderTop (alignStep Src.height Dst.height) (row y) s)
      s) := by
  unfold forLong
  rw [hcount, hfirst]
  refine upTo_invariant _ (fun i s => LineState.UpTo Dst Src k (p + i) s) h ?_
  intro i t hi ht
  rw [← BitVec.ofNat_add]
  exact ht.writeLine (hrow (p + i) (by omega) (by omega))

/-- A line outside the borders. -/
theorem isLine_border (fastTop : BitVec 32 → BitVec 32)
    (hy : between (border_y0 Dst Src k) (border_y1 Dst Src k) p = false) :
    IsLine Dst Src k fastTop (borderFirst k)
      (splitRow k (alignStep Src.width Dst.width) 0#32 0#32 Dst.width.toNat) p := by
  unfold IsLine splitRow
  rw [List.map_map, List.map_inj_left]
  intro x _
  have hx : between 0#32 0#32 x = false := by simp [between]
  simp [toBorderPixel, splitColumn, splitPixel, hx, hy]

/-- A line between them. -/
theorem isLine_row (hy : between (border_y0 Dst Src k) (border_y1 Dst Src k) p = true)
    (htop : fastTop (positionOf (alignStep Src.height Dst.height) (BitVec.ofNat 32 p)) =
      borderFirst k (positionOf (alignStep Src.height Dst.height) (BitVec.ofNat 32 p))) :
    IsLine Dst Src k fastTop (borderFirst k)
      (splitRow k (alignStep Src.width Dst.width) (border_x0 Dst Src k) (border_x1 Dst Src k)
        Dst.width.toNat) p := by
  unfold IsLine splitRow
  rw [List.map_map, List.map_inj_left]
  intro x _
  simp [toBorderPixel, splitColumn, splitPixel, hy, htop]

/-- The loops over the lines write every line. -/
theorem threeParts_eq (hDst : Dst.Sized) (hSrc : Src.Sized)
    (htop : ∀ y, between (border_y0 Dst Src k) (border_y1 Dst Src k) y = true →
      fastTop (positionOf (alignStep Src.height Dst.height) (BitVec.ofNat 32 y)) =
        borderFirst k (positionOf (alignStep Src.height Dst.height) (BitVec.ofNat 32 y))) :
    threeParts fastTop (borderFirst k) (alignStep Src.height Dst.height) Dst.height
      (border_y0 Dst Src k) (border_y1 Dst Src k)
      (splitRow k (alignStep Src.width Dst.width) 0#32 0#32 Dst.width.toNat)
      (splitRow k (alignStep Src.width Dst.width) (border_x0 Dst Src k) (border_x1 Dst Src k)
        Dst.width.toNat) = splitLines Dst Src k Dst.height.toNat := by
  have hsplit := hDst.split_y hSrc k
  have hdst := hDst.height_lt
  obtain ⟨hupper, hmiddle, hlower, hsum, hend⟩ := hsplit.counts hdst
  have hout (y : Nat) (hy : y < (border_y0 Dst Src k).toNat ∨ (border_y1 Dst Src k).toNat ≤ y) :=
    isLine_border fastTop ((hsplit.not_between_iff hdst y).mpr hy)
  have hfirst := (LineState.UpTo.start Dst Src k).writeLines fastTop _ (fun _ => splitRow k _ _ _ _)
    hupper rfl fun y _ hy => hout y (by omega)
  rw [Nat.zero_add] at hfirst
  have hsecond := hfirst.writeLines fastTop _ (fun _ => splitRow k _ _ _ _) hmiddle (by simp)
    fun y hlo hhi =>
    have hy := (hsplit.between_iff hdst y).mpr (by omega)
    isLine_row hy (htop y hy)
  rw [hsum] at hsecond
  have hthird := hsecond.writeLines fastTop _ (fun _ => splitRow k _ _ _ _) hlower (by simp)
    fun y hlo _ => hout y (by omega)
  rw [hend] at hthird
  exact hthird.written

/-- The one loop of the version with a table writes every line. -/
theorem tableLines_eq (hDst : Dst.Sized) (hSrc : Src.Sized) :
    (forLong 0 Dst.height (fun y s =>
      if y.slt (border_y0 Dst Src k) || (border_y1 Dst Src k).sle y then
        writeLine (borderFirst k) (borderFirst k) (alignStep Src.height Dst.height)
          (splitRow k (alignStep Src.width Dst.width) 0#32 0#32 Dst.width.toNat) s
      else
        writeLine (borderFirst k) (borderFirst k) (alignStep Src.height Dst.height)
          (splitRow k (alignStep Src.width Dst.width) (border_x0 Dst Src k) (border_x1 Dst Src k)
            Dst.width.toNat) s)
      ⟨0, csDError (alignStep Src.height Dst.height), []⟩).written =
        splitLines Dst Src k Dst.height.toNat := by
  have hsplit := hDst.split_y hSrc k
  have hdst := hDst.height_lt
  have hcount : (Dst.height.toInt - (0#32).toInt).toNat = Dst.height.toNat := by
    have hd : Dst.height.toInt = Dst.height.toNat := BitVec.toInt_eq_toNat_of_lt (by omega)
    have hzero : (0#32).toInt = 0 := rfl
    omega
  have hloop := (LineState.UpTo.start Dst Src k).writeLines (borderFirst k)
    (borderFirst k) (fun y =>
      if y.slt (border_y0 Dst Src k) || (border_y1 Dst Src k).sle y then
        splitRow k (alignStep Src.width Dst.width) 0#32 0#32 Dst.width.toNat
      else
        splitRow k (alignStep Src.width Dst.width) (border_x0 Dst Src k) (border_x1 Dst Src k)
          Dst.width.toNat) hcount rfl ?_
  · rw [Nat.zero_add] at hloop
    rw [← hloop.written]
    congr 2
    funext y s
    split_ifs <;> rfl
  · intro y _ hy
    obtain ⟨h0, h1, -, -⟩ := hsplit.toNat hdst
    have hyi : (BitVec.ofNat 32 y).toInt = y := toInt_ofNat_of_lt (by omega)
    by_cases hin : between (border_y0 Dst Src k) (border_y1 Dst Src k) y = true
    · have hrange := (hsplit.between_iff hdst y).mp hin
      rw [if_neg]
      · exact isLine_row hin rfl
      · rw [Bool.or_eq_true, BitVec.slt_iff_toInt_lt, BitVec.sle_iff_toInt_le, hyi]
        omega
    · rw [Bool.not_eq_true] at hin
      have hrange := (hsplit.not_between_iff hdst y).mp hin
      rw [if_pos]
      · exact isLine_border _ hin
      · rw [Bool.or_eq_true, BitVec.slt_iff_toInt_lt, BitVec.sle_iff_toInt_le, hyi]
        omega

/-- What was written covers the destination, unchecked exactly between the borders, where the
squares are in the source. -/
structure Splits (k : Kernel) (Dst Src : Bgra32Rect) (written : List BorderPixel) : Prop where
  once : EachOnce Dst (written.map fun p => (p.y, p.x))
  fast_iff : ∀ p ∈ written, p.fast = true ↔
    ((border_x0 Dst Src k).toInt ≤ p.x.toInt ∧ p.x.toInt < (border_x1 Dst Src k).toInt) ∧
      (border_y0 Dst Src k).toInt ≤ p.y ∧ p.y < (border_y1 Dst Src k).toInt
  inside : ∀ p ∈ written, p.fast = true →
    (0 ≤ p.left.toInt ∧ p.left.toInt + k.size ≤ Src.width.toInt) ∧
      0 ≤ p.top.toInt ∧ p.top.toInt + k.size ≤ Src.height.toInt

/-- Between the borders a square is in the source. -/
theorem Split.square {src dst step b0 b1 : BitVec 32} (h : Split k src dst step b0 b1) {x : Nat}
    (hx : between b0 b1 x = true) :
    0 ≤ (borderFirst k (positionOf step (BitVec.ofNat 32 x))).toInt ∧
      (borderFirst k (positionOf step (BitVec.ofNat 32 x))).toInt + k.size ≤ src.toInt := by
  obtain ⟨hlo, hhi⟩ := of_decide_eq_true hx
  obtain ⟨-, hbefore, hafter⟩ := h.inside x hlo hhi
  have hle := k.before_le
  have hshift : ((positionOf step (BitVec.ofNat 32 x)).sshiftRight 16).toInt =
      (positionOf step (BitVec.ofNat 32 x)).toInt / 65536 := toInt_sar _ 16
  have hk : (BitVec.ofNat 32 k.before).toInt = k.before := toInt_ofNat_of_lt (by omega)
  have hsrc := src.toInt_lt
  have hfirst : (borderFirst k (positionOf step (BitVec.ofNat 32 x))).toInt =
      (positionOf step (BitVec.ofNat 32 x)).toInt / 65536 - k.before := by
    rw [borderFirst, toInt_sub_of_fits, hshift, hk]
    · rw [hshift, hk]
      omega
    · rw [hshift, hk]
      omega
  rw [hfirst, Kernel.size]
  push_cast
  omega

theorem splits_splitLines (hDst : Dst.Sized) (hSrc : Src.Sized) :
    Splits k Dst Src (splitLines Dst Src k Dst.height.toNat) := by
  have hmem {p : BorderPixel} (hp : p ∈ splitLines Dst Src k Dst.height.toNat) :
      ∃ y, y < Dst.height.toNat ∧ ∃ x, x < Dst.width.toNat ∧ p = splitPixel Dst Src k y x := by
    simpa [splitLines, eq_comm] using hp
  refine ⟨?_, ?_, ?_⟩
  · have hall : (splitLines Dst Src k Dst.height.toNat).map (fun p => (p.y, p.x)) =
        List.range Dst.height.toNat ×ˢ (List.range Dst.width.toNat).map (BitVec.ofNat 32) := by
      rw [splitLines, List.map_flatMap]
      show _ = (List.range Dst.height.toNat).flatMap fun y =>
        ((List.range Dst.width.toNat).map (BitVec.ofNat 32)).map (Prod.mk y)
      simp only [List.map_map]
      rfl
    rw [hall]
    exact eachOnce_product Dst
  · intro p hp
    obtain ⟨y, hy, x, hx, rfl⟩ := hmem hp
    have hlt := hDst.width_lt
    have hxi : (BitVec.ofNat 32 x).toInt = x := toInt_ofNat_of_lt (by omega)
    show (_ && _) = true ↔ _
    rw [Bool.and_eq_true, between, between, decide_eq_true_iff, decide_eq_true_iff]
    show _ ↔ (_ ≤ (BitVec.ofNat 32 x).toInt ∧ (BitVec.ofNat 32 x).toInt < _) ∧ _
    rw [hxi]
    rfl
  · intro p hp hfast
    obtain ⟨y, hy, x, hx, rfl⟩ := hmem hp
    obtain ⟨hbx, hby⟩ := Bool.and_eq_true_iff.mp hfast
    exact ⟨(hDst.split_x hSrc k).square hbx, (hDst.split_y hSrc k).square hby⟩

end Images

/-- **The borders of the bilinear and the bicubic scalers**: in each direction they are in order and
in the destination; each function writes every pixel once, unchecked exactly between the borders,
and what it reads there is inside the source. -/
theorem borders_split (Dst Src : Bgra32Rect) (hDst : Dst.Sized) (hSrc : Src.Sized) (fuel : Nat)
    (hfuel : Dst.width.toNat ≤ fuel) :
    (∀ k, Split k Src.width Dst.width (alignStep Src.width Dst.width) (border_x0 Dst Src k)
        (border_x1 Dst Src k) ∧
      Split k Src.height Dst.height (alignStep Src.height Dst.height) (border_y0 Dst Src k)
        (border_y1 Dst Src k)) ∧
      (∃ written, ImageScaling_Bilinear_MMX_Ex Dst Src fuel = some written ∧
        Splits bilinear Dst Src written) ∧
      Splits threeOrder Dst Src (ImageScaling_ThreeOrder_MMX Dst Src) ∧
      Splits threeOrder Dst Src (ImageScaling_ThreeOrderTable_SSE2 Dst Src) := by
  have hwidth := hDst.width_lt
  have hsome : ¬ (Dst.empty || Src.empty) = true := by simp [hDst.not_empty, hSrc.not_empty]
  refine ⟨fun k => ⟨hDst.split_x hSrc k, hDst.split_y hSrc k⟩, ?_, ?_, ?_⟩
  · refine ⟨_, ?_, splits_splitLines hDst hSrc⟩
    rw [ImageScaling_Bilinear_MMX_Ex, if_neg hsome]
    simp only
    rw [bilinearMMXRow_eq (hDst.split_x hSrc bilinear) hwidth rfl hfuel, borderRow_eq,
      Option.map_some, threeParts_eq hDst hSrc fun _ _ => rfl]
  · rw [ImageScaling_ThreeOrder_MMX, if_neg hsome]
    simp only
    rw [threeOrderMMXRow_eq (hDst.split_x hSrc threeOrder) hwidth rfl, borderRow_eq,
      threeParts_eq hDst hSrc fun _ hy => (hDst.split_y hSrc threeOrder).fastFirst_eq hy]
    exact splits_splitLines hDst hSrc
  · have hborder : tableColumns (initXList Dst.width (alignStep Src.width Dst.width)) false 0
        Dst.width [] =
        splitRow threeOrder (alignStep Src.width Dst.width) 0#32 0#32 Dst.width.toNat := by
      have hd : Dst.width.toInt = Dst.width.toNat := BitVec.toInt_eq_toNat_of_lt (by omega)
      have hzero : (0 : BitVec 32).toInt = 0 := rfl
      have hcount : (Dst.width.toInt - (0 : BitVec 32).toInt).toNat = Dst.width.toNat := by omega
      have htable :=
        tableColumns_eq (p := 0) (alignStep Src.width Dst.width) 0#32 0#32 hwidth false rfl
        hcount (by omega) fun x _ _ => by simp [between]
      rw [Nat.zero_add] at htable
      exact htable
    rw [ImageScaling_ThreeOrderTable_SSE2, if_neg hsome]
    simp only
    rw [hborder, threeOrderTableRow_eq (hDst.split_x hSrc threeOrder) hwidth rfl,
      tableLines_eq hDst hSrc]
    exact splits_splitLines hDst hSrc

/-- Three rows of five pixels from four of six. -/
theorem borders_split_shrunk :
    ∃ written, ImageScaling_Bilinear_MMX_Ex ⟨5, 3⟩ ⟨6, 4⟩ 5 = some written ∧
      Splits bilinear ⟨5, 3⟩ ⟨6, 4⟩ written :=
  (borders_split ⟨5, 3⟩ ⟨6, 4⟩ (by decide) (by decide) 5 (by decide)).2.1

end TiraRdp.ImageProcess
