import Mathlib.Data.List.Nodup
import Mathlib.Tactic.Common
import TiraRdp.Lib.Loop
import TiraRdp.Lib.Register

/-!
# `ImageProcess`: where the scalers read and write

`ImageScaling_Align_SSE` and `ImageScaling_Align_SSE_mmh`
(`common/utility/private/common/ImageProcess.cpp:1029-1161`), with the registers of the assembly
that the bilinear scalers have too: a counter that runs from a negative number up to zero behind the
pixels it counts, and the position in the source as a 16.16 number. A `long` is a 32-bit word too;
its shifts and divisions are the signed ones.

What a scaler leaves behind is the list of the pixels it wrote, each with where it came from. A
pixel is named by its row and its column. Not modelled: the colours and how they are mixed.

Result: the nearest-neighbour scalers, whose step is rounded up, stay inside the source exactly
when, in each direction, dividing `65536 * Src` by `Dst` leaves a quotient and a remainder that
together are at least `Dst` (`align_inside_iff`).
-/

namespace TiraRdp.ImageProcess

open Lib Lib.Loop

/-- `Bgra32Rect`, without its pixels. -/
structure Bgra32Rect where
  width : BitVec 32
  height : BitVec 32
  deriving Repr, DecidableEq

/-- The sizes that a 16.16 number has room for. -/
structure Bgra32Rect.Sized (r : Bgra32Rect) : Prop where
  width_pos : 0 < r.width.toNat
  width_lt : r.width.toNat < 2 ^ 15
  height_pos : 0 < r.height.toNat
  height_lt : r.height.toNat < 2 ^ 15

instance (r : Bgra32Rect) : Decidable r.Sized :=
  decidable_of_iff
    (0 < r.width.toNat ∧ r.width.toNat < 2 ^ 15 ∧ 0 < r.height.toNat ∧ r.height.toNat < 2 ^ 15)
    ⟨fun ⟨h1, h2, h3, h4⟩ => ⟨h1, h2, h3, h4⟩, fun h => ⟨h.1, h.2, h.3, h.4⟩⟩

/-! ## The assembly of a row -/

/-- The registers of a row, and the pixels written. `edi` is the index of a pixel of the row. -/
structure RowRegs (α : Type) where
  edi : BitVec 32
  /-- `ecx` or `ebx` -/
  counter : BitVec 32
  srcx_16 : BitVec 32
  written : List α

def RowRegs.start {α : Type} : RowRegs α := ⟨0, 0, 0, []⟩

/-- `test n, n; jle end; lea edi, [edi + n*4]; neg n; start: …; jnz start; end:`. A pixel counts for
`unit`, one where `edi` is an index and four where it is an offset. -/
def countUp {α : Type} (fuel unit : Nat) (n : BitVec 32) (body : RowRegs α → RowRegs α)
    (r : RowRegs α) : Option (RowRegs α) :=
  if n.sle 0#32 then some r
  else
    let n := BitVec.ofNat 32 unit * n
    doWhile (fun r => some (body r)) (fun r => r.counter != 0#32) fuel
      { r with edi := r.edi + n, counter := -n }

/-- A row of the loop over the lines: `srcy_16`, and what has been written. -/
structure Lines (β : Type) where
  srcy_16 : BitVec 32
  written : List β

/-- `for (y = 0; y < Dst.height; ++y)`: the row is written from line `srcy_16 >> 16` on. -/
def eachLine {α β : Type} (height yrIntFloat_16 : BitVec 32) (row : List α)
    (sample : Nat → BitVec 32 → α → β) : List β :=
  (upTo (fun y (s : Lines β) =>
    ⟨s.srcy_16 + yrIntFloat_16, s.written ++ row.map (sample y s.srcy_16)⟩)
    height.toNat ⟨0, []⟩).written

section Rows

variable {α β : Type} {fuel u d k p : Nat} {body : RowRegs α → RowRegs α} {r : RowRegs α}

theorem countUp_zero : countUp fuel u 0#32 body r = some r := by
  unfold countUp
  rw [if_pos (by decide)]

/-- A round that writes `d` pixels: `h` says what is written at an offset, for a position in the
source. Offsets go up by `u` from pixel to pixel, positions by `edx`. -/
def round (u d : Nat) (edx : BitVec 32) (h : BitVec 32 → BitVec 32 → α) (r : RowRegs α) :
    RowRegs α :=
  { r with
    counter := r.counter + BitVec.ofNat 32 (u * d)
    srcx_16 := r.srcx_16 + BitVec.ofNat 32 d * edx
    written := r.written ++ (List.range d).map fun t =>
      h (r.edi + r.counter + BitVec.ofNat 32 (u * t)) (r.srcx_16 + BitVec.ofNat 32 t * edx) }

/-- What is written for the first `p` pixels. -/
def pixels (u : Nat) (edx : BitVec 32) (h : BitVec 32 → BitVec 32 → α) (p : Nat) : List α :=
  (List.range p).map fun x => h (BitVec.ofNat 32 (u * x)) (BitVec.ofNat 32 x * edx)

/-- The first `p` pixels are written. -/
structure RowRegs.At (u : Nat) (edx : BitVec 32) (h : BitVec 32 → BitVec 32 → α) (p : Nat)
    (r : RowRegs α) : Prop where
  edi : r.edi = BitVec.ofNat 32 (u * p)
  srcx_16 : r.srcx_16 = BitVec.ofNat 32 p * edx
  written : r.written = pixels u edx h p

variable {edx : BitVec 32} {h : BitVec 32 → BitVec 32 → α}

theorem RowRegs.At.start (edx : BitVec 32) (h : BitVec 32 → BitVec 32 → α) :
    RowRegs.At u edx h 0 (.start : RowRegs α) where
  edi := rfl
  srcx_16 := by simp [RowRegs.start]
  written := rfl

theorem pixels_add (p d : Nat) :
    pixels u edx h (p + d) = pixels u edx h p ++ (List.range d).map fun t =>
      h (BitVec.ofNat 32 (u * (p + t))) (BitVec.ofNat 32 (p + t) * edx) := by
  unfold pixels
  rw [List.range_add, List.map_append, List.map_map]
  rfl

/-- What `n` pixels from the registers on write. -/
def onward (u : Nat) (edx : BitVec 32) (h : BitVec 32 → BitVec 32 → α) (edi srcx_16 : BitVec 32)
    (n : Nat) : List α :=
  (List.range n).map fun i => h (edi + BitVec.ofNat 32 (u * i)) (srcx_16 + BitVec.ofNat 32 i * edx)

theorem onward_add (edi srcx_16 : BitVec 32) (m n : Nat) :
    onward u edx h edi srcx_16 (m + n) = onward u edx h edi srcx_16 m ++
      onward u edx h (edi + BitVec.ofNat 32 (u * m)) (srcx_16 + BitVec.ofNat 32 m * edx) n := by
  unfold onward
  rw [List.range_add, List.map_append, List.map_map]
  congr 2
  funext i
  have hedi : edi + BitVec.ofNat 32 (u * (m + i)) =
      edi + BitVec.ofNat 32 (u * m) + BitVec.ofNat 32 (u * i) := by
    rw [Nat.mul_add, BitVec.ofNat_add, BitVec.add_assoc]
  have hsrcx : srcx_16 + BitVec.ofNat 32 (m + i) * edx =
      srcx_16 + BitVec.ofNat 32 m * edx + BitVec.ofNat 32 i * edx := by
    rw [BitVec.ofNat_add]
    grind
  simp only [Function.comp_apply, hedi, hsrcx]

/-- A counter that goes up by `d` pixels, round after round, from anywhere in a row. -/
theorem countUp_rounds (edx : BitVec 32) (h : BitVec 32 → BitVec 32 → α) (fuel : Nat) (hu : 0 < u)
    (hd : 0 < d) (hfuel : k ≤ fuel)
    (hlt : u * d * k < 2 ^ 31) (r : RowRegs α) :
    ∃ t, countUp fuel u (BitVec.ofNat 32 (d * k)) (round u d edx h) r = some t ∧
      t.edi = r.edi + BitVec.ofNat 32 (u * d * k) ∧
      t.srcx_16 = r.srcx_16 + BitVec.ofNat 32 (d * k) * edx ∧
      t.written = r.written ++ onward u edx h r.edi r.srcx_16 (d * k) := by
  rcases Nat.eq_zero_or_pos k with rfl | hk
  · exact ⟨r, countUp_zero, by simp, by simp, by simp [onward]⟩
  have hud : 0 < u * d := Nat.mul_pos hu hd
  have hpos : 0 < d * k := Nat.mul_pos hd hk
  have hle : d * k ≤ u * d * k := by
    rw [Nat.mul_assoc]
    exact Nat.le_mul_of_pos_left _ hu
  have hunit : BitVec.ofNat 32 u * BitVec.ofNat 32 (d * k) = BitVec.ofNat 32 (u * d * k) := by
    rw [← BitVec.ofNat_mul, Nat.mul_assoc]
  have hsle : ¬ (BitVec.ofNat 32 (d * k)).sle 0#32 = true := by
    rw [BitVec.sle_iff_toInt_le, toInt_ofNat_of_lt (by omega)]
    simp only [BitVec.toInt_zero]
    omega
  -- the registers after `i` rounds
  have hrounds := doWhile_count (fun r => some (round u d edx h r)) (fun r => r.counter != 0#32)
    (fun i t => t.edi = r.edi + BitVec.ofNat 32 (u * d * k) ∧
      t.counter = -BitVec.ofNat 32 (u * d * k) + BitVec.ofNat 32 (u * d * i) ∧
      t.srcx_16 = r.srcx_16 + BitVec.ofNat 32 (d * i) * edx ∧
      t.written = r.written ++ onward u edx h r.edi r.srcx_16 (d * i)) (k := k) ?_ 0
    { r with
      edi := r.edi + BitVec.ofNat 32 (u * d * k)
      counter := -BitVec.ofNat 32 (u * d * k) } fuel hk (by omega)
    ⟨rfl, by simp, by simp, by simp [onward]⟩
  · obtain ⟨t, ht, hedi, -, hsrcx, hwritten⟩ := hrounds
    refine ⟨t, ?_, hedi, hsrcx, hwritten⟩
    unfold countUp
    rw [if_neg hsle, hunit]
    exact ht
  · rintro i t hi ⟨hedi, hcounter, hsrcx, hwritten⟩
    have hcounter' : (round u d edx h t).counter =
        -BitVec.ofNat 32 (u * d * k) + BitVec.ofNat 32 (u * d * (i + 1)) := by
      show t.counter + BitVec.ofNat 32 (u * d) = _
      rw [hcounter, Nat.mul_add_one, BitVec.ofNat_add]
      grind
    have hsrcx' : (round u d edx h t).srcx_16 =
        r.srcx_16 + BitVec.ofNat 32 (d * (i + 1)) * edx := by
      show t.srcx_16 + BitVec.ofNat 32 d * edx = _
      rw [hsrcx, Nat.mul_add_one, BitVec.ofNat_add]
      grind
    have hwritten' : (round u d edx h t).written =
        r.written ++ onward u edx h r.edi r.srcx_16 (d * (i + 1)) := by
      have hat : t.edi + t.counter = r.edi + BitVec.ofNat 32 (u * (d * i)) := by
        rw [hedi, hcounter, ← Nat.mul_assoc]
        grind
      rw [Nat.mul_add_one, onward_add, ← List.append_assoc, ← hwritten, ← hat, ← hsrcx]
      rfl
    refine ⟨_, rfl, ⟨hedi, hcounter', hsrcx', hwritten'⟩, ?_⟩
    have hle : u * d * (i + 1) ≤ u * d * k := Nat.mul_le_mul_left _ hi
    have hend : (round u d edx h t).counter = 0#32 ↔ i + 1 = k := by
      rw [hcounter', neg_add_ofNat_eq_zero hle (by omega), Nat.mul_left_cancel_iff hud]
    rw [Bool.eq_iff_iff, bne_iff_ne, decide_eq_true_iff, ne_eq, hend]
    omega

/-- Rounds behind the first `p` pixels. -/
theorem countUp_spec (fuel : Nat) (hu : 0 < u) (hd : 0 < d) (hfuel : k ≤ fuel)
    (hlt : u * d * k < 2 ^ 31)
    (hr : r.At u edx h p) :
    ∃ t, countUp fuel u (BitVec.ofNat 32 (d * k)) (round u d edx h) r = some t ∧
      t.At u edx h (p + d * k) := by
  obtain ⟨t, ht, hedi, hsrcx, hwritten⟩ := countUp_rounds edx h fuel hu hd hfuel hlt r
  refine ⟨t, ht, ?_, ?_, ?_⟩
  · rw [hedi, hr.edi, Nat.mul_add, Nat.mul_assoc, BitVec.ofNat_add]
  · rw [hsrcx, hr.srcx_16, BitVec.ofNat_add]
    grind
  · have hpixels (n : Nat) : pixels u edx h n = onward u edx h 0 0 n := by
      simp [pixels, onward]
    rw [hwritten, hr.written, hpixels, hpixels, onward_add, hr.edi, hr.srcx_16]
    simp

/-- The lines, one after the other. -/
theorem eachLine_eq (height yr : BitVec 32) (row : List α) (sample : Nat → BitVec 32 → α → β) :
    eachLine height yr row sample =
      (List.range height.toNat).flatMap fun y => row.map (sample y (BitVec.ofNat 32 y * yr)) := by
  have hinv := upTo_invariant
    (fun y (s : Lines β) =>
      (⟨s.srcy_16 + yr, s.written ++ row.map (sample y s.srcy_16)⟩ : Lines β))
    (fun y s => s.srcy_16 = BitVec.ofNat 32 y * yr ∧
      s.written = (List.range y).flatMap fun y => row.map (sample y (BitVec.ofNat 32 y * yr)))
    (n := height.toNat) (s := ⟨0, []⟩) ?_ ?_
  · exact hinv.2
  · exact ⟨by simp, rfl⟩
  · rintro y s - ⟨hsrcy, hwritten⟩
    constructor
    · rw [hsrcy, BitVec.ofNat_add]
      grind
    · rw [List.range_succ, List.flatMap_append, hwritten, hsrcy]
      simp

end Rows

/-! ## Nearest neighbour -/

/-- A pixel of the destination, and the pixel of the source that it was copied from. -/
structure Sample where
  y : Nat
  x : BitVec 32
  srcy : BitVec 32
  srcx : BitVec 32
  deriving Repr, DecidableEq

/-- The step in one direction: `(Src << 16) / Dst + 1`. -/
def alignStep (src dst : BitVec 32) : BitVec 32 := (src <<< 16).sdiv dst + 1

/-- `WriteLoop`: four pixels. -/
def writeLoop (edx : BitVec 32) (r : RowRegs (BitVec 32 × BitVec 32)) :
    RowRegs (BitVec 32 × BitVec 32) :=
  let at_ := r.edi + r.counter
  let ebp := r.srcx_16 + edx * 2
  { r with
    counter := r.counter + 4
    srcx_16 := ebp + edx * 2
    written := r.written ++
      [(at_, r.srcx_16 >>> 16), (at_ + 1, (r.srcx_16 + edx) >>> 16), (at_ + 2, ebp >>> 16),
        (at_ + 3, (ebp + edx) >>> 16)] }

/-- `StartBorder`: one pixel. -/
def startBorder (edx : BitVec 32) (r : RowRegs (BitVec 32 × BitVec 32)) :
    RowRegs (BitVec 32 × BitVec 32) :=
  { r with
    counter := r.counter + 1
    srcx_16 := r.srcx_16 + edx
    written := r.written ++ [(r.edi + r.counter, r.srcx_16 >>> 16)] }

/-- The assembly of `ImageScaling_Align_SSE`. -/
def alignRow (fuel : Nat) (dst_width xrIntFloat_16 : BitVec 32) :
    Option (List (BitVec 32 × BitVec 32)) :=
  ((countUp fuel 1 (dst_width &&& ~~~3#32) (writeLoop xrIntFloat_16) .start).bind
    (countUp fuel 1 (dst_width &&& 3#32) (startBorder xrIntFloat_16))).map (·.written)

/-- A pixel of `ImageScaling_Align_SSE_mmh`: `srcx_16`, and the pixels written. -/
def mmhPixel (xrIntFloat_16 x : BitVec 32) (s : BitVec 32 × List (BitVec 32 × BitVec 32)) :
    BitVec 32 × List (BitVec 32 × BitVec 32) :=
  (s.1 + xrIntFloat_16, s.2 ++ [(x, s.1 >>> 16)])

/-- Its loops over `x`: four pixels at a time, and those that are left. -/
def alignRowMmh (dst_width xrIntFloat_16 : BitVec 32) : List (BitVec 32 × BitVec 32) :=
  let pixel := mmhPixel xrIntFloat_16
  let for4count := dst_width / 4 * 4
  let fours := upTo (fun i s =>
    let x := BitVec.ofNat 32 (4 * i)
    pixel (x + 3) (pixel (x + 2) (pixel (x + 1) (pixel x s)))) (for4count.toNat / 4) (0, [])
  (upTo (fun i s => pixel (for4count + BitVec.ofNat 32 i) s)
    (dst_width.toNat - for4count.toNat) fours).2

def toSample (y : Nat) (srcy_16 : BitVec 32) (column : BitVec 32 × BitVec 32) : Sample :=
  ⟨y, column.1, srcy_16 >>> 16, column.2⟩

/-- A size of zero. -/
def Bgra32Rect.empty (r : Bgra32Rect) : Bool := r.width == 0#32 || r.height == 0#32

def ImageScaling_Align_SSE (fuel : Nat) (Dst Src : Bgra32Rect) : Option (List Sample) :=
  if Dst.empty || Src.empty then some []
  else
    (alignRow fuel Dst.width (alignStep Src.width Dst.width)).map fun row =>
      eachLine Dst.height (alignStep Src.height Dst.height) row toSample

def ImageScaling_Align_SSE_mmh (Dst Src : Bgra32Rect) : List Sample :=
  if Dst.empty || Src.empty then []
  else
    eachLine Dst.height (alignStep Src.height Dst.height)
      (alignRowMmh Dst.width (alignStep Src.width Dst.width)) toSample

/-! ### The columns -/

section Columns

variable {w edx : BitVec 32} {fuel : Nat}

/-- What is written at an offset, for a position in the source. -/
def nearest (x srcx_16 : BitVec 32) : BitVec 32 × BitVec 32 := (x, srcx_16 >>> 16)

theorem writeLoop_eq : writeLoop edx = round 1 4 edx nearest := by
  funext r
  have hpos2 : r.srcx_16 + BitVec.ofNat 32 2 * edx = r.srcx_16 + edx * 2 := by grind
  have hpos3 : r.srcx_16 + BitVec.ofNat 32 3 * edx = r.srcx_16 + edx * 2 + edx := by grind
  have hpos4 : r.srcx_16 + BitVec.ofNat 32 4 * edx = r.srcx_16 + edx * 2 + edx * 2 := by grind
  simp [writeLoop, round, nearest, List.range, List.range.loop, hpos2, hpos3, hpos4]

theorem startBorder_eq : startBorder edx = round 1 1 edx nearest := by
  funext r
  simp [startBorder, round, nearest, List.range, List.range.loop]

/-- **The assembly writes every pixel of the row**, the `x`-th from column `x * edx >> 16`. -/
theorem alignRow_eq (hw : w.toNat < 2 ^ 31) (hfuel : w.toNat ≤ fuel) :
    alignRow fuel w edx = some (pixels 1 edx nearest w.toNat) := by
  have hfour : w &&& ~~~3#32 = BitVec.ofNat 32 (4 * (w.toNat / 4)) := by
    rw [← BitVec.toNat_inj, toNat_and_not_mask w (m := 3) (k := 2) rfl,
      toNat_ofNat_of_lt (by omega)]
    omega
  have hrest : w &&& 3#32 = BitVec.ofNat 32 (1 * (w.toNat % 4)) := by
    rw [← BitVec.toNat_inj, toNat_and_mask w (m := 3) (k := 2) rfl (by decide),
      toNat_ofNat_of_lt (by omega)]
    omega
  obtain ⟨r, hr, hmain⟩ := countUp_spec fuel (u := 1) (d := 4) (k := w.toNat / 4) (by decide)
    (by decide) (by omega) (by omega) (RowRegs.At.start edx nearest)
  obtain ⟨t, ht, hborder⟩ := countUp_spec fuel (u := 1) (d := 1) (k := w.toNat % 4)
    (by decide) (by decide) (by omega) (by omega) hmain
  have hall : 0 + 4 * (w.toNat / 4) + 1 * (w.toNat % 4) = w.toNat := by omega
  rw [alignRow, hfour, hrest, writeLoop_eq, startBorder_eq, hr, Option.bind_some, ht,
    Option.map_some,
    hborder.written, hall]

theorem mmhPixel_eq (p : Nat) :
    mmhPixel edx (BitVec.ofNat 32 p) (BitVec.ofNat 32 p * edx, pixels 1 edx nearest p) =
      (BitVec.ofNat 32 (p + 1) * edx, pixels 1 edx nearest (p + 1)) := by
  have hpos : BitVec.ofNat 32 p * edx + edx = BitVec.ofNat 32 (p + 1) * edx := by
    rw [BitVec.ofNat_add]
    grind
  rw [mmhPixel, hpos, pixels_add]
  simp [nearest]

/-- **The loops over `x`** write the same. -/
theorem alignRowMmh_eq : alignRowMmh w edx = pixels 1 edx nearest w.toNat := by
  have hfour : w / 4 * 4 = BitVec.ofNat 32 (4 * (w.toNat / 4)) := by
    rw [← BitVec.toNat_inj, BitVec.toNat_mul, BitVec.toNat_udiv, toNat_ofNat_of_lt (by omega)]
    simp
    omega
  have hfours := upTo_invariant
    (fun i s => mmhPixel edx (BitVec.ofNat 32 (4 * i) + 3)
      (mmhPixel edx (BitVec.ofNat 32 (4 * i) + 2)
        (mmhPixel edx (BitVec.ofNat 32 (4 * i) + 1) (mmhPixel edx (BitVec.ofNat 32 (4 * i)) s))))
    (fun i s => s = (BitVec.ofNat 32 (4 * i) * edx, pixels 1 edx nearest (4 * i)))
    (n := w.toNat / 4) (s := (0, [])) ?_ ?_
  · have hrest := upTo_invariant
      (fun i s => mmhPixel edx (BitVec.ofNat 32 (4 * (w.toNat / 4)) + BitVec.ofNat 32 i) s)
      (fun i s => s = (BitVec.ofNat 32 (4 * (w.toNat / 4) + i) * edx,
        pixels 1 edx nearest (4 * (w.toNat / 4) + i)))
      (n := w.toNat - 4 * (w.toNat / 4))
      (s := (BitVec.ofNat 32 (4 * (w.toNat / 4)) * edx, pixels 1 edx nearest (4 * (w.toNat / 4)))) rfl ?_
    · have hle : 4 * (w.toNat / 4) + (w.toNat - 4 * (w.toNat / 4)) = w.toNat := by omega
      have hlt := w.isLt
      unfold alignRowMmh
      dsimp only
      rw [hfour, toNat_ofNat_of_lt (by omega), Nat.mul_div_cancel_left _ (by decide),
        hfours, hrest, hle]
    · rintro i s - rfl
      rw [← BitVec.ofNat_add, mmhPixel_eq]
      rfl
  · simp [pixels]
  · rintro i s - rfl
    have hnext1 : BitVec.ofNat 32 (4 * i) + 1 = BitVec.ofNat 32 (4 * i + 1) :=
      (BitVec.ofNat_add _ _).symm
    have hnext2 : BitVec.ofNat 32 (4 * i) + 2 = BitVec.ofNat 32 (4 * i + 2) :=
      (BitVec.ofNat_add _ _).symm
    have hnext3 : BitVec.ofNat 32 (4 * i) + 3 = BitVec.ofNat 32 (4 * i + 3) :=
      (BitVec.ofNat_add _ _).symm
    rw [mmhPixel_eq, hnext1, mmhPixel_eq, hnext2, mmhPixel_eq, hnext3, mmhPixel_eq]
    rfl

end Columns

/-! ### The bound -/

/-- In one direction, the step that is rounded up does not lead past the source. -/
def Enough (src dst : BitVec 32) : Prop :=
  dst.toNat ≤ 65536 * src.toNat / dst.toNat + 65536 * src.toNat % dst.toNat

instance (src dst : BitVec 32) : Decidable (Enough src dst) :=
  inferInstanceAs (Decidable (_ ≤ _))

/-- Every pixel comes from inside the source. -/
def Inside (Src : Bgra32Rect) (samples : List Sample) : Prop :=
  ∀ s ∈ samples, s.srcx.toNat < Src.width.toNat ∧ s.srcy.toNat < Src.height.toNat

section Bound

variable {src dst : BitVec 32} {Dst Src : Bgra32Rect}

/-- The last position is behind the others, and `(d - 1) * (n / d + 1)` is `n` less `n / d + n % d`,
and `d - 1` more. -/
theorem rounded_up_inside_iff {s d : Nat} (hd : 0 < d) :
    (∀ x < d, x * (65536 * s / d + 1) / 65536 < s) ↔ d ≤ 65536 * s / d + 65536 * s % d := by
  have hdivmod := Nat.div_add_mod (65536 * s) d
  generalize 65536 * s / d = q at hdivmod ⊢
  generalize 65536 * s % d = r at hdivmod ⊢
  obtain ⟨e, rfl⟩ : ∃ e, d = e + 1 := ⟨d - 1, by omega⟩
  have hlast : (e + 1) * q = e * q + q := Nat.succ_mul e q
  have hstep : e * (q + 1) = e * q + e := Nat.mul_add_one e q
  constructor
  · intro h
    have hinside := (Nat.div_lt_iff_lt_mul (by decide)).mp (h e (Nat.lt_succ_self e))
    omega
  · intro h x hx
    have hle : x * (q + 1) ≤ e * (q + 1) := Nat.mul_le_mul_right _ (Nat.le_of_lt_succ hx)
    rw [Nat.div_lt_iff_lt_mul (by decide)]
    omega

theorem toNat_alignStep (hsrc : src.toNat < 2 ^ 15) (hdst : dst.toNat < 2 ^ 15) :
    (alignStep src dst).toNat = 65536 * src.toNat / dst.toNat + 1 := by
  have hshift : (src <<< 16).toNat = 65536 * src.toNat := by
    rw [toNat_shl, Nat.mod_eq_of_lt (by omega)]
    omega
  have hle : 65536 * src.toNat / dst.toNat ≤ 65536 * src.toNat := Nat.div_le_self _ _
  rw [alignStep, BitVec.toNat_add, toNat_sdiv_of_lt (by omega) (by omega), hshift]
  simp
  omega

/-- The position in the source does not wrap. -/
theorem toNat_position (hsrc : src.toNat < 2 ^ 15) (hdst : dst.toNat < 2 ^ 15) {x : Nat}
    (hx : x < dst.toNat) :
    ((BitVec.ofNat 32 x * alignStep src dst) >>> 16).toNat =
      x * (65536 * src.toNat / dst.toNat + 1) / 65536 := by
  have hle :
      x * (65536 * src.toNat / dst.toNat + 1) ≤ dst.toNat * (65536 * src.toNat / dst.toNat + 1) :=
    Nat.mul_le_mul_right _ (Nat.le_of_lt hx)
  have hdiv : dst.toNat * (65536 * src.toNat / dst.toNat) ≤ 65536 * src.toNat := Nat.mul_div_le _ _
  rw [Nat.mul_add_one dst.toNat] at hle
  rw [toNat_shr, BitVec.toNat_mul, toNat_ofNat_of_lt (by omega), toNat_alignStep hsrc hdst,
    Nat.mod_eq_of_lt (by omega)]
  rfl

/-- In one direction: every position is inside exactly if the step is not too long. -/
theorem positions_inside_iff (hsrc : src.toNat < 2 ^ 15) (hdst : dst.toNat < 2 ^ 15)
    (hpos : 0 < dst.toNat) :
    (∀ x < dst.toNat, ((BitVec.ofNat 32 x * alignStep src dst) >>> 16).toNat < src.toNat) ↔
      Enough src dst := by
  rw [Enough, ← rounded_up_inside_iff hpos]
  constructor
  · intro h x hx
    rw [← toNat_position hsrc hdst hx]
    exact h x hx
  · intro h x hx
    rw [toNat_position hsrc hdst hx]
    exact h x hx

/-- The pixels that both functions write. -/
def alignSamples (Dst Src : Bgra32Rect) : List Sample :=
  eachLine Dst.height (alignStep Src.height Dst.height)
    (pixels 1 (alignStep Src.width Dst.width) nearest Dst.width.toNat) toSample

theorem mem_alignSamples (s : Sample) :
    s ∈ alignSamples Dst Src ↔ ∃ y < Dst.height.toNat, ∃ x < Dst.width.toNat,
      s = ⟨y, BitVec.ofNat 32 x, (BitVec.ofNat 32 y * alignStep Src.height Dst.height) >>> 16,
        (BitVec.ofNat 32 x * alignStep Src.width Dst.width) >>> 16⟩ := by
  rw [alignSamples, eachLine_eq]
  simp [pixels, toSample, nearest, eq_comm]

theorem inside_alignSamples_iff (hDst : Dst.Sized) (hSrc : Src.Sized) :
    Inside Src (alignSamples Dst Src) ↔ Enough Src.width Dst.width ∧
      Enough Src.height Dst.height := by
  rw [← positions_inside_iff hSrc.width_lt hDst.width_lt hDst.width_pos,
    ← positions_inside_iff hSrc.height_lt hDst.height_lt hDst.height_pos]
  constructor
  · intro h
    constructor
    · exact fun x hx => (h _ ((mem_alignSamples _).mpr ⟨0, hDst.height_pos, x, hx, rfl⟩)).1
    · exact fun y hy => (h _ ((mem_alignSamples _).mpr ⟨y, hy, 0, hDst.width_pos, rfl⟩)).2
  · rintro ⟨hx, hy⟩ s hs
    obtain ⟨y, hylt, x, hxlt, rfl⟩ := (mem_alignSamples s).mp hs
    exact ⟨hx x hxlt, hy y hylt⟩

end Bound

theorem Bgra32Rect.Sized.not_empty {r : Bgra32Rect} (h : r.Sized) : r.empty = false := by
  have hwidth : r.width ≠ 0#32 := fun h0 => absurd h.width_pos (by rw [h0]; decide)
  have hheight : r.height ≠ 0#32 := fun h0 => absurd h.height_pos (by rw [h0]; decide)
  simp [Bgra32Rect.empty, hwidth, hheight]

/-- **Nearest neighbour stays inside the source** exactly when, in each direction, dividing
`65536 * Src` by `Dst` leaves a quotient and a remainder that together are at least `Dst`. -/
theorem align_inside_iff (Dst Src : Bgra32Rect) (hDst : Dst.Sized) (hSrc : Src.Sized) (fuel : Nat)
    (hfuel : Dst.width.toNat ≤ fuel) :
    ((∃ samples, ImageScaling_Align_SSE fuel Dst Src = some samples ∧ Inside Src samples) ↔
        Enough Src.width Dst.width ∧ Enough Src.height Dst.height) ∧
      (Inside Src (ImageScaling_Align_SSE_mmh Dst Src) ↔
        Enough Src.width Dst.width ∧ Enough Src.height Dst.height) := by
  have hempty : ¬ (Dst.empty || Src.empty) = true := by simp [hDst.not_empty, hSrc.not_empty]
  have hlt := hDst.width_lt
  have hsse : ImageScaling_Align_SSE fuel Dst Src = some (alignSamples Dst Src) := by
    rw [ImageScaling_Align_SSE, if_neg hempty, alignRow_eq (by omega) hfuel]
    rfl
  have hmmh : ImageScaling_Align_SSE_mmh Dst Src = alignSamples Dst Src := by
    rw [ImageScaling_Align_SSE_mmh, if_neg hempty, alignRowMmh_eq]
    rfl
  rw [hsse, hmmh, ← inside_alignSamples_iff hDst hSrc]
  constructor
  · constructor
    · rintro ⟨samples, hsamples, hinside⟩
      exact Option.some.inj hsamples ▸ hinside
    · exact fun h => ⟨_, rfl, h⟩
  · rfl

theorem align_inside_iff_stretched :
    (∃ samples, ImageScaling_Align_SSE 5 ⟨5, 3⟩ ⟨2, 2⟩ = some samples ∧ Inside ⟨2, 2⟩ samples) ∧
      Inside ⟨2, 2⟩ (ImageScaling_Align_SSE_mmh ⟨5, 3⟩ ⟨2, 2⟩) := by
  have h := align_inside_iff ⟨5, 3⟩ ⟨2, 2⟩ (by decide) (by decide) 5 (by decide)
  exact ⟨h.1.mpr (by decide), h.2.mpr (by decide)⟩

/-- A single pixel stretched to 257: the last one comes from the column behind it. -/
theorem align_past_the_source :
    ¬ ∀ Dst Src : Bgra32Rect, Dst.Sized → Src.Sized → ∀ fuel, Dst.width.toNat ≤ fuel →
      (∃ samples, ImageScaling_Align_SSE fuel Dst Src = some samples ∧ Inside Src samples) ∧
        Inside Src (ImageScaling_Align_SSE_mmh Dst Src) := by
  intro h
  have hlast : (⟨0, 256, 0, 1⟩ : Sample) ∈ ImageScaling_Align_SSE_mmh ⟨257, 1⟩ ⟨1, 1⟩ := by
    decide +kernel
  have hinside := (h ⟨257, 1⟩ ⟨1, 1⟩ (by decide) (by decide) 257 (by decide)).2 _ hlast
  exact absurd hinside.1 (by decide)

end TiraRdp.ImageProcess
