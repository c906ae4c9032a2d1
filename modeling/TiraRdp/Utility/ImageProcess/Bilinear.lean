import Mathlib.Data.List.ProdSigma
import TiraRdp.Utility.ImageProcess.Scaling

/-!
# `ImageProcess`: the bilinear scalers

`ImageScaling_Bilinear_SSE2`, with `ftBilinear_SSE2_expand2` and `Bilinear_Fast_MMX_expand1`, and
`ImageScaling_BilinearTable_SSE2`, with `ftBilinearTable_SSE2_expand2` and `ftBilinearTable_SSE2`
(`common/utility/private/common/ImageProcess.cpp:673-722`, `754-1027`), as `Scaling` has them: a
pixel with the column `x0` that it and its neighbour `x0 + 1` are read from, and their weights.

The table holds the columns and, for each, two words of four equal lanes: the weights of the column
and of its neighbour, doubled. Its loops address it by offsets, four bytes a column.

Result: the bilinear scalers stay inside the source, with the next row and column; nothing wraps,
every pixel is written once, and the table holds what the direct version computes
(`bilinear_inside`).
-/

namespace TiraRdp.ImageProcess

open Lib Lib.Loop

/-- The step in one direction: `((Src - 1) << 16) / Dst`. -/
def bilinearStep (src dst : BitVec 32) : BitVec 32 := ((src - 1) <<< 16).sdiv dst

/-! ## The direct version -/

structure BilinearColumn where
  x : BitVec 32
  srcx_16 : BitVec 32
  /-- read with its neighbour -/
  x0 : BitVec 32
  u_8 : BitVec 32
  deriving Repr, DecidableEq

/-- `ftBilinear_SSE2_expand2`: the lower words of both positions are shifted. -/
def ftBilinearSSE2Expand2 (ebp : BitVec 32) (r : RowRegs BilinearColumn) : RowRegs BilinearColumn :=
  let eax := r.srcx_16 + ebp
  let fraction (v : BitVec 32) : BitVec 32 := ((v.setWidth 16) >>> 8).setWidth 32
  { r with
    counter := r.counter + 2
    srcx_16 := r.srcx_16 + ebp * 2
    written := r.written ++
      [⟨r.edi + r.counter, r.srcx_16, r.srcx_16 >>> 16, fraction r.srcx_16⟩,
        ⟨r.edi + r.counter + 1, eax, eax >>> 16, fraction eax⟩] }

/-- `Bilinear_Fast_MMX_expand1`. -/
def bilinearFastMMXExpand1 (edx x : BitVec 32) : BilinearColumn :=
  ⟨x, edx, edx >>> 16, (edx <<< 16) >>> 24⟩

/-- The last pixel of a row of odd width. -/
def bilinearTail (dst_width : BitVec 32) (r : RowRegs BilinearColumn) : List BilinearColumn :=
  let ebx := dst_width &&& 1#32
  if ebx.sle 0#32 then r.written
  else
    let edi := r.edi + ebx
    r.written ++ [bilinearFastMMXExpand1 r.srcx_16 (edi + -ebx)]

/-- The assembly of a row. -/
def bilinearRow (fuel : Nat) (dst_width xrIntFloat_16 : BitVec 32) : Option (List BilinearColumn) :=
  (countUp fuel 1 (dst_width &&& ~~~1#32) (ftBilinearSSE2Expand2 xrIntFloat_16) .start).map
    (bilinearTail dst_width)

/-! ## The version with a table -/

structure BilinearTable where
  xList : List (BitVec 32)
  uList : List (BitVec 64)
  deriving Repr, DecidableEq

/-- Four lanes of a weight: `u | (u << 16)`, and that twice. -/
def fourLanes (u : BitVec 32) : BitVec 64 :=
  let two := (u ||| (u <<< 16)).setWidth 64
  two ||| (two <<< 32)

/-- `init u table`: `srcx_16`, and what is in the table. -/
def initTable (dst_width xrIntFloat_16 : BitVec 32) : BilinearTable :=
  (upTo (fun _ (s : BitVec 32 × BilinearTable) =>
    let u := s.1.sshiftRight 8 &&& 0xFF#32
    let ur := (256#32 - u) <<< 1
    let u := u <<< 1
    (s.1 + xrIntFloat_16,
      ⟨s.2.xList ++ [s.1.sshiftRight 16], s.2.uList ++ [fourLanes ur, fourLanes u]⟩))
    dst_width.toNat (0, ⟨[], []⟩)).2

structure TableColumn where
  x : BitVec 32
  /-- read with its neighbour -/
  x0 : BitVec 32
  /-- `(u, ur)` in front of the colours -/
  weights : BitVec 64 × BitVec 64
  deriving Repr, DecidableEq

/-- What is written at an offset of the row: `[edx+ebx]` in `xList`, `[ebp+ebx*4]` in `uList`. -/
def BilinearTable.column (table : BilinearTable) (offset : BitVec 32) : TableColumn where
  x := offset >>> 2
  x0 := table.xList.getD (offset.toNat / 4) 0
  weights :=
    let quad := (offset <<< 2).toNat / 8
    (table.uList.getD quad 0, table.uList.getD (quad + 1) 0)

/-- `ftBilinearTable_SSE2_expand2`, two pixels, and `ftBilinearTable_SSE2`, one. -/
def ftBilinearTableSSE2Expand2 (table : BilinearTable) (r : RowRegs TableColumn) :
    RowRegs TableColumn :=
  { r with
    counter := r.counter + 8
    written := r.written ++
      [table.column (r.edi + r.counter), table.column (r.edi + r.counter + 4)] }

def ftBilinearTableSSE2 (table : BilinearTable) (r : RowRegs TableColumn) : RowRegs TableColumn :=
  { r with
    counter := r.counter + 4
    written := r.written ++ [table.column (r.edi + r.counter)] }

/-- The assembly of a row. -/
def tableRow (fuel : Nat) (dst_width : BitVec 32) (table : BilinearTable) :
    Option (List TableColumn) :=
  ((countUp fuel 4 (dst_width &&& ~~~1#32) (ftBilinearTableSSE2Expand2 table) .start).bind
    (countUp fuel 4 (dst_width &&& 1#32) (ftBilinearTableSSE2 table))).map (·.written)

/-! ## The images -/

/-- A pixel of the destination: its row and the position of its source row, and its column. -/
structure BilinearSample (α : Type) where
  y : Nat
  srcy_16 : BitVec 32
  /-- read with the next one -/
  y0 : BitVec 32
  column : α
  deriving Repr, DecidableEq

def toBilinearSample {α : Type} (y : Nat) (srcy_16 : BitVec 32) (column : α) : BilinearSample α :=
  ⟨y, srcy_16, srcy_16.sshiftRight 16, column⟩

/-- Nothing to write, or not enough to read. -/
def tooSmall (Dst Src : Bgra32Rect) : Bool :=
  Dst.empty || Src.width.slt 2#32 || Src.height.slt 2#32

def ImageScaling_Bilinear_SSE2 (fuel : Nat) (Dst Src : Bgra32Rect) :
    Option (List (BilinearSample BilinearColumn)) :=
  if tooSmall Dst Src then some []
  else
    (bilinearRow fuel Dst.width (bilinearStep Src.width Dst.width)).map fun row =>
      eachLine Dst.height (bilinearStep Src.height Dst.height) row toBilinearSample

def ImageScaling_BilinearTable_SSE2 (fuel : Nat) (Dst Src : Bgra32Rect) :
    Option (List (BilinearSample TableColumn)) :=
  if tooSmall Dst Src then some []
  else
    (tableRow fuel Dst.width (initTable Dst.width (bilinearStep Src.width Dst.width))).map fun row =>
      eachLine Dst.height (bilinearStep Src.height Dst.height) row toBilinearSample

/-! ## The columns -/

section Columns

variable {w edx : BitVec 32} {fuel : Nat} {table : BilinearTable}

theorem toNat_fraction (v : BitVec 32) :
    (((v.setWidth 16) >>> 8).setWidth 32).toNat = v.toNat / 256 % 256 := by
  simp only [BitVec.toNat_setWidth, BitVec.toNat_ushiftRight, Nat.shiftRight_eq_div_pow]
  omega

/-- Both ways to the fraction. -/
theorem fraction_eq (v : BitVec 32) :
    ((v.setWidth 16) >>> 8).setWidth 32 = (v >>> 8) &&& 0xFF#32 ∧
      (v <<< 16) >>> 24 = (v >>> 8) &&& 0xFF#32 := by
  have hmask : ((v >>> 8) &&& 0xFF#32).toNat = v.toNat / 256 % 256 := by
    rw [toNat_and_mask _ (m := 0xFF) (k := 8) rfl (by decide), toNat_shr]
    rfl
  constructor
  · rw [← BitVec.toNat_inj, toNat_fraction, hmask]
  · rw [← BitVec.toNat_inj, hmask, toNat_shr, toNat_shl]
    omega

/-- What is written at an index, for a position in the source. -/
def interpolated (x srcx_16 : BitVec 32) : BilinearColumn :=
  ⟨x, srcx_16, srcx_16 >>> 16, (srcx_16 >>> 8) &&& 0xFF#32⟩

theorem ftBilinearSSE2Expand2_eq : ftBilinearSSE2Expand2 edx = round 1 2 edx interpolated := by
  funext r
  have hpos2 : r.srcx_16 + BitVec.ofNat 32 2 * edx = r.srcx_16 + edx * 2 := by grind
  simp [ftBilinearSSE2Expand2, round, interpolated, List.range, List.range.loop, hpos2,
    (fraction_eq _).1]

theorem even_part (w : BitVec 32) : w &&& ~~~1#32 = BitVec.ofNat 32 (2 * (w.toNat / 2)) := by
  have hlt := w.isLt
  rw [← BitVec.toNat_inj, toNat_and_not_mask w (m := 1) (k := 1) rfl, toNat_ofNat_of_lt (by omega)]
  omega

theorem odd_part (w : BitVec 32) : w &&& 1#32 = BitVec.ofNat 32 (1 * (w.toNat % 2)) := by
  rw [← BitVec.toNat_inj, toNat_and_mask w (m := 1) (k := 1) rfl (by decide),
    toNat_ofNat_of_lt (by omega)]
  omega

/-- **The direct version writes every pixel of the row**, the `x`-th at position `x * edx`. -/
theorem bilinearRow_eq (hw : w.toNat < 2 ^ 31) (hfuel : w.toNat ≤ fuel) :
    bilinearRow fuel w edx = some (pixels 1 edx interpolated w.toNat) := by
  obtain ⟨r, hr, hmain⟩ := countUp_spec fuel (u := 1) (d := 2) (k := w.toNat / 2) (by decide)
    (by decide) (by omega) (by omega) (RowRegs.At.start edx interpolated)
  rw [bilinearRow, even_part, ftBilinearSSE2Expand2_eq, hr, Option.map_some, bilinearTail, odd_part]
  rcases Nat.mod_two_eq_zero_or_one w.toNat with hodd | hodd
  · have hall : 0 + 2 * (w.toNat / 2) = w.toNat := by omega
    rw [hodd, hmain.written, hall]
    rfl
  · have hall : w.toNat = 0 + 2 * (w.toNat / 2) + 1 := by omega
    have hat : r.edi + BitVec.ofNat 32 (1 * 1) + -BitVec.ofNat 32 (1 * 1) = r.edi := by grind
    rw [hodd]
    dsimp only
    generalize 0 + 2 * (w.toNat / 2) = m at hmain hall
    rw [if_neg (by decide), hat, hmain.written, hall, pixels_add, hmain.edi, hmain.srcx_16]
    simp [bilinearFastMMXExpand1, interpolated, (fraction_eq _).2]

theorem ftBilinearTableSSE2Expand2_eq :
    ftBilinearTableSSE2Expand2 table = round 4 2 0 fun offset _ => table.column offset := by
  funext r
  simp [ftBilinearTableSSE2Expand2, round, List.range, List.range.loop]

theorem ftBilinearTableSSE2_eq :
    ftBilinearTableSSE2 table = round 4 1 0 fun offset _ => table.column offset := by
  funext r
  simp [ftBilinearTableSSE2, round, List.range, List.range.loop]

/-- **The version with a table writes every pixel of the row**, at offset `4 * x`. -/
theorem tableRow_eq (hw : w.toNat < 2 ^ 15) (hfuel : w.toNat ≤ fuel) :
    tableRow fuel w table = some (pixels 4 0 (fun offset _ => table.column offset) w.toNat) := by
  obtain ⟨r, hr, hmain⟩ := countUp_spec fuel (u := 4) (d := 2) (k := w.toNat / 2) (by decide)
    (by decide) (by omega) (by omega) (RowRegs.At.start 0 fun offset _ => table.column offset)
  obtain ⟨t, ht, htail⟩ := countUp_spec fuel (u := 4) (d := 1) (k := w.toNat % 2)
    (by decide) (by decide) (by omega) (by omega) hmain
  have hall : 0 + 2 * (w.toNat / 2) + 1 * (w.toNat % 2) = w.toNat := by omega
  rw [tableRow, even_part, odd_part, ftBilinearTableSSE2Expand2_eq, ftBilinearTableSSE2_eq, hr,
    Option.bind_some, ht, Option.map_some, htail.written, hall]

end Columns

/-! ## The bound -/

section Bound

variable {src dst : BitVec 32}

/-- What is computed in one direction with steps of `step`, and does not wrap: `Src - 1` as a 16.16
number, the step, and a position, up to the one behind the last pixel. -/
structure StepFits (src dst step : BitVec 32) : Prop where
  whole : ((src - 1) <<< 16).toNat = (src.toNat - 1) * 65536
  whole_lt : (src.toNat - 1) * 65536 < 2 ^ 31
  step_eq : step.toNat = (src.toNat - 1) * 65536 / dst.toNat
  position : ∀ x ≤ dst.toNat, (BitVec.ofNat 32 x * step).toNat = x * step.toNat
  position_lt : ∀ x ≤ dst.toNat, x * step.toNat < 2 ^ 31

theorem stepFits (hsrc : src.toNat < 2 ^ 15) (hdst : dst.toNat < 2 ^ 15) (hpos : 0 < src.toNat) :
    StepFits src dst (bilinearStep src dst) := by
  have hpred : (src - 1).toNat = src.toNat - 1 := by
    rw [BitVec.toNat_sub]
    simp
    omega
  have hwhole : ((src - 1) <<< 16).toNat = (src.toNat - 1) * 65536 := by
    rw [toNat_shl, hpred, Nat.mod_eq_of_lt (by omega)]
    rfl
  have hstep : (bilinearStep src dst).toNat = (src.toNat - 1) * 65536 / dst.toNat := by
    rw [bilinearStep, toNat_sdiv_of_lt (by omega) (by omega), hwhole]
  have hlt (x : Nat) (hx : x ≤ dst.toNat) : x * (bilinearStep src dst).toNat < 2 ^ 31 := by
    have hle := Nat.mul_le_mul_right (bilinearStep src dst).toNat hx
    have hdiv := Nat.mul_div_le ((src.toNat - 1) * 65536) dst.toNat
    rw [hstep] at hle ⊢
    omega
  refine ⟨hwhole, by omega, hstep, ?_, hlt⟩
  intro x hx
  have hx32 := hlt x hx
  rw [BitVec.toNat_mul, toNat_ofNat_of_lt (by omega), Nat.mod_eq_of_lt (by omega)]

variable {step : BitVec 32} {x : Nat}

/-- A position is read with its neighbour: `x * step < (Src - 1) << 16`. -/
theorem StepFits.inside (h : StepFits src dst step) (hsrc : 2 ≤ src.toNat) (hx : x < dst.toNat) :
    ((BitVec.ofNat 32 x * step) >>> 16).toNat + 1 < src.toNat := by
  have hstep := h.step_eq
  have hdiv := Nat.mul_div_le ((src.toNat - 1) * 65536) dst.toNat
  have hle : (x + 1) * step.toNat ≤ dst.toNat * step.toNat := Nat.mul_le_mul_right _ hx
  rw [Nat.succ_mul] at hle
  have hlt : x * step.toNat < (src.toNat - 1) * 65536 := by
    rw [← hstep] at hdiv
    rcases Nat.eq_zero_or_pos step.toNat with h0 | h0
    · rw [h0, Nat.mul_zero]
      omega
    · omega
  have hpos : x * step.toNat / 65536 < src.toNat - 1 := (Nat.div_lt_iff_lt_mul (by decide)).mpr hlt
  rw [toNat_shr, h.position x (Nat.le_of_lt hx)]
  show x * step.toNat / 65536 + 1 < src.toNat
  omega

theorem StepFits.sshiftRight (h : StepFits src dst step) (hx : x ≤ dst.toNat) (k : Nat) :
    (BitVec.ofNat 32 x * step).sshiftRight k = (BitVec.ofNat 32 x * step) >>> k := by
  have hlt := h.position_lt x hx
  rw [← h.position x hx] at hlt
  exact sshiftRight_of_lt hlt k

end Bound

/-! ## The table -/

section Table

variable {w edx : BitVec 32}

/-- The entries of the table for a column. -/
def BilinearColumn.weights (c : BilinearColumn) : BitVec 64 × BitVec 64 :=
  (fourLanes ((256#32 - c.u_8) <<< 1), fourLanes (c.u_8 <<< 1))

/-- The table that belongs to the columns of a row. -/
def tableOf (row : List BilinearColumn) : BilinearTable :=
  ⟨row.map (·.x0), row.flatMap fun c => [c.weights.1, c.weights.2]⟩

theorem tableOf_concat (row : List BilinearColumn) (c : BilinearColumn) :
    tableOf (row ++ [c]) =
      ⟨(tableOf row).xList ++ [c.x0], (tableOf row).uList ++ [c.weights.1, c.weights.2]⟩ := by
  simp [tableOf]

/-- **The table holds the columns and fractions of the direct version.** -/
theorem initTable_eq {src : BitVec 32} (h : StepFits src w edx) :
    initTable w edx = tableOf (pixels 1 edx interpolated w.toNat) := by
  have hinv := upTo_invariant
    (fun _ s =>
      (s.1 + edx, ⟨s.2.xList ++ [s.1.sshiftRight 16],
        s.2.uList ++ [fourLanes ((256#32 - (s.1.sshiftRight 8 &&& 0xFF#32)) <<< 1),
          fourLanes ((s.1.sshiftRight 8 &&& 0xFF#32) <<< 1)]⟩))
    (fun x s => s = (BitVec.ofNat 32 x * edx, tableOf (pixels 1 edx interpolated x)))
    (n := w.toNat) (s := ((0, ⟨[], []⟩) : BitVec 32 × BilinearTable)) ?_ ?_
  · unfold initTable
    dsimp only
    rw [hinv]
  · simp [tableOf, pixels]
  · rintro x s hx rfl
    have hpos : BitVec.ofNat 32 x * edx + edx = BitVec.ofNat 32 (x + 1) * edx := by
      rw [BitVec.ofNat_add]
      grind
    have hnext : pixels 1 edx interpolated (x + 1) = pixels 1 edx interpolated x ++
        [interpolated (BitVec.ofNat 32 x) (BitVec.ofNat 32 x * edx)] := by
      simp [pixels, List.range_succ]
    rw [hpos, hnext, tableOf_concat, h.sshiftRight (Nat.le_of_lt hx),
      h.sshiftRight (Nat.le_of_lt hx)]
    rfl

theorem getElem?_pairs {α β : Type} (a b : α → β) (l : List α) (i : Nat) :
    (l.flatMap fun x => [a x, b x])[2 * i]? = l[i]?.map a ∧
      (l.flatMap fun x => [a x, b x])[2 * i + 1]? = l[i]?.map b := by
  induction l generalizing i with
  | nil => simp
  | cons x l ih =>
    cases i with
    | zero => simp
    | succ i => simpa [Nat.mul_add_one] using ih i

/-- What the version with a table reads for a column is what the direct version computes. -/
theorem column_eq {row : List BilinearColumn} {x : Nat} {c : BilinearColumn} (hx : x < 2 ^ 15)
    (hc : row[x]? = some c) :
    (tableOf row).column (BitVec.ofNat 32 (4 * x)) = ⟨BitVec.ofNat 32 x, c.x0, c.weights⟩ := by
  have hoffset : (BitVec.ofNat 32 (4 * x)).toNat = 4 * x := toNat_ofNat_of_lt (by omega)
  have hindex : BitVec.ofNat 32 (4 * x) >>> 2 = BitVec.ofNat 32 x := by
    rw [← BitVec.toNat_inj, toNat_shr, hoffset, toNat_ofNat_of_lt (by omega)]
    omega
  have hquad : (BitVec.ofNat 32 (4 * x) <<< 2).toNat / 8 = 2 * x := by
    rw [toNat_shl, hoffset]
    omega
  obtain ⟨hfirst, hsecond⟩ := getElem?_pairs (fun c : BilinearColumn => c.weights.1)
    (fun c => c.weights.2) row x
  unfold BilinearTable.column
  rw [hoffset, hindex, hquad, Nat.mul_div_cancel_left _ (by decide)]
  simp only [tableOf, List.getD_eq_getElem?_getD, List.getElem?_map, hfirst, hsecond, hc,
    Option.map_some, Option.getD_some]

end Table

/-! ## The pixels -/

/-- Every pixel of the destination, once. -/
structure EachOnce (Dst : Bgra32Rect) (written : List (Nat × BitVec 32)) : Prop where
  once : written.Nodup
  mem_iff : ∀ y x, (y, x) ∈ written ↔ y < Dst.height.toNat ∧ x.toNat < Dst.width.toNat

/-- A pixel is read at the column `x * xr >> 16` and the row `y * yr >> 16`, whose positions do not
wrap, and both have a next one in the source. -/
structure ReadsInside (Src : Bgra32Rect) (xr yr : BitVec 32) (y : Nat) (x x0 y0 : BitVec 32) :
    Prop where
  column : x0.toNat = x.toNat * xr.toNat / 65536
  row : y0.toNat = y * yr.toNat / 65536
  column_lt : x0.toNat + 1 < Src.width.toNat
  row_lt : y0.toNat + 1 < Src.height.toNat

section Pixels

variable {Dst Src : Bgra32Rect} {xr yr : BitVec 32}

theorem mem_eachLine {α : Type} {height : BitVec 32} {row : List α} {s : BilinearSample α} :
    s ∈ eachLine height yr row toBilinearSample ↔
      ∃ y < height.toNat, ∃ c ∈ row, s = toBilinearSample y (BitVec.ofNat 32 y * yr) c := by
  rw [eachLine_eq]
  simp [eq_comm]

/-- The rows of the destination, each with all its columns, are every pixel. -/
theorem eachOnce_product (Dst : Bgra32Rect) :
    EachOnce Dst (List.range Dst.height.toNat ×ˢ (List.range Dst.width.toNat).map (BitVec.ofNat 32)) := by
  have hwidth := Dst.width.isLt
  constructor
  · refine List.nodup_range.product (List.Nodup.map_on ?_ List.nodup_range)
    intro i hi j hj hij
    rw [List.mem_range] at hi hj
    rw [← BitVec.toNat_inj, toNat_ofNat_of_lt (by omega), toNat_ofNat_of_lt (by omega)] at hij
    exact hij
  · intro y x
    rw [List.mem_product, List.mem_range, List.mem_map]
    refine and_congr_right fun _ => ?_
    constructor
    · rintro ⟨i, hi, rfl⟩
      rw [List.mem_range] at hi
      rw [toNat_ofNat_of_lt (by omega)]
      exact hi
    · intro hx
      exact ⟨x.toNat, List.mem_range.mpr hx, by simp⟩

/-- The lines of a row that has every column have every pixel. -/
theorem eachOnce_eachLine {α : Type} {row : List α} {x : α → BitVec 32}
    (hrow : row.map x = (List.range Dst.width.toNat).map (BitVec.ofNat 32)) :
    EachOnce Dst ((eachLine Dst.height yr row toBilinearSample).map fun s => (s.y, x s.column)) := by
  have hall : ((eachLine Dst.height yr row toBilinearSample).map fun s => (s.y, x s.column)) =
      List.range Dst.height.toNat ×ˢ (List.range Dst.width.toNat).map (BitVec.ofNat 32) := by
    rw [eachLine_eq, List.map_flatMap, ← hrow]
    show _ = (List.range Dst.height.toNat).flatMap fun y => (row.map x).map (Prod.mk y)
    simp only [List.map_map]
    rfl
  rw [hall]
  exact eachOnce_product Dst

/-- A column and a row of the two tables of positions are inside. -/
theorem readsInside (hx : StepFits Src.width Dst.width xr) (hy : StepFits Src.height Dst.height yr)
    (hw : 2 ≤ Src.width.toNat) (hh : 2 ≤ Src.height.toNat) {x y : Nat} (hxlt : x < Dst.width.toNat)
    (hylt : y < Dst.height.toNat) :
    ReadsInside Src xr yr y (BitVec.ofNat 32 x) ((BitVec.ofNat 32 x * xr) >>> 16)
      ((BitVec.ofNat 32 y * yr).sshiftRight 16) := by
  have hwidth := Dst.width.isLt
  rw [hy.sshiftRight (Nat.le_of_lt hylt)]
  constructor
  · rw [toNat_shr, hx.position x (Nat.le_of_lt hxlt), toNat_ofNat_of_lt (by omega)]
    rfl
  · rw [toNat_shr, hy.position y (Nat.le_of_lt hylt)]
    rfl
  · exact hx.inside hw hxlt
  · exact hy.inside hh hylt

end Pixels

theorem Bgra32Rect.Sized.not_tooSmall {Dst Src : Bgra32Rect} (hDst : Dst.Sized) (hSrc : Src.Sized)
    (hw : 2 ≤ Src.width.toNat) (hh : 2 ≤ Src.height.toNat) : tooSmall Dst Src = false := by
  have hslt (v : BitVec 32) (hlo : 2 ≤ v.toNat) (hhi : v.toNat < 2 ^ 15) : v.slt 2#32 = false := by
    rw [BitVec.slt_eq_decide, decide_eq_false_iff_not, BitVec.toInt_eq_toNat_of_lt (by omega)]
    simp
    omega
  simp [tooSmall, hDst.not_empty, hslt _ hw hSrc.width_lt, hslt _ hh hSrc.height_lt]

/-- **Bilinear scaling stays inside the source**: both functions return, and nothing wraps; both
write every pixel of the destination once, from a row and a column that have a next one; and what is
in the table, and what is read from it, are the columns and the fractions of the direct version. -/
theorem bilinear_inside (Dst Src : Bgra32Rect) (hDst : Dst.Sized) (hSrc : Src.Sized)
    (hw : 2 ≤ Src.width.toNat) (hh : 2 ≤ Src.height.toNat) (fuel : Nat)
    (hfuel : Dst.width.toNat ≤ fuel) :
    let xr := bilinearStep Src.width Dst.width
    let yr := bilinearStep Src.height Dst.height
    StepFits Src.width Dst.width xr ∧ StepFits Src.height Dst.height yr ∧
      ∃ row direct table, bilinearRow fuel Dst.width xr = some row ∧
        initTable Dst.width xr = tableOf row ∧
        ImageScaling_Bilinear_SSE2 fuel Dst Src = some direct ∧
        ImageScaling_BilinearTable_SSE2 fuel Dst Src = some table ∧
        EachOnce Dst (direct.map fun s => (s.y, s.column.x)) ∧
        EachOnce Dst (table.map fun s => (s.y, s.column.x)) ∧
        (∀ s ∈ direct, ReadsInside Src xr yr s.y s.column.x s.column.x0 s.y0) ∧
        (∀ s ∈ table, ReadsInside Src xr yr s.y s.column.x s.column.x0 s.y0) ∧
        table = direct.map fun s =>
          ⟨s.y, s.srcy_16, s.y0, ⟨s.column.x, s.column.x0, s.column.weights⟩⟩ := by
  intro xr yr
  have hsmall : ¬ tooSmall Dst Src = true := by simp [hDst.not_tooSmall hSrc hw hh]
  have hxfits : StepFits Src.width Dst.width xr :=
    stepFits hSrc.width_lt hDst.width_lt hSrc.width_pos
  have hyfits : StepFits Src.height Dst.height yr :=
    stepFits hSrc.height_lt hDst.height_lt hSrc.height_pos
  have hlt := hDst.width_lt
  have hrow : bilinearRow fuel Dst.width xr = some (pixels 1 xr interpolated Dst.width.toNat) :=
    bilinearRow_eq (by omega) hfuel
  generalize hcolumns : pixels 1 xr interpolated Dst.width.toNat = row at hrow
  have htable : initTable Dst.width xr = tableOf row := hcolumns ▸ initTable_eq hxfits
  -- what is read from the table, column by column
  have hread : pixels 4 0 (fun offset _ => (initTable Dst.width xr).column offset) Dst.width.toNat =
      row.map fun c => ⟨c.x, c.x0, c.weights⟩ := by
    rw [← hcolumns, pixels, pixels, List.map_map, List.map_inj_left]
    intro x hx
    rw [List.mem_range] at hx
    rw [htable,
      column_eq (c := interpolated (BitVec.ofNat 32 x) (BitVec.ofNat 32 x * xr)) (by omega)]
    · simp [interpolated]
    · simp [← hcolumns, pixels, hx]
  have hdirect : ImageScaling_Bilinear_SSE2 fuel Dst Src =
      some (eachLine Dst.height yr row toBilinearSample) := by
    rw [ImageScaling_Bilinear_SSE2, if_neg hsmall, hrow]
    rfl
  have htabled : ImageScaling_BilinearTable_SSE2 fuel Dst Src =
      some (eachLine Dst.height yr (row.map fun c => (⟨c.x, c.x0, c.weights⟩ : TableColumn))
        toBilinearSample) := by
    rw [ImageScaling_BilinearTable_SSE2, if_neg hsmall, tableRow_eq hlt hfuel, hread]
    rfl
  have hcols : row.map (·.x) = (List.range Dst.width.toNat).map (BitVec.ofNat 32) := by
    rw [← hcolumns]
    simp [pixels, interpolated]
  have hsame : eachLine Dst.height yr (row.map fun c => (⟨c.x, c.x0, c.weights⟩ : TableColumn))
        toBilinearSample =
      (eachLine Dst.height yr row toBilinearSample).map fun s =>
        ⟨s.y, s.srcy_16, s.y0, ⟨s.column.x, s.column.x0, s.column.weights⟩⟩ := by
    rw [eachLine_eq, eachLine_eq, List.map_flatMap]
    simp only [List.map_map]
    rfl
  have hinside : ∀ s ∈ eachLine Dst.height yr row toBilinearSample,
      ReadsInside Src xr yr s.y s.column.x s.column.x0 s.y0 := by
    intro s hs
    obtain ⟨y, hy, c, hc, rfl⟩ := mem_eachLine.mp hs
    rw [← hcolumns, pixels, List.mem_map] at hc
    obtain ⟨x, hx, rfl⟩ := hc
    rw [Nat.one_mul]
    exact readsInside hxfits hyfits hw hh (List.mem_range.mp hx) hy
  refine ⟨hxfits, hyfits, row, _, _, hrow, htable, hdirect, htabled, eachOnce_eachLine hcols,
    eachOnce_eachLine ?_, hinside, ?_, hsame⟩
  · rw [List.map_map]
    exact hcols
  · rw [hsame]
    intro s hs
    obtain ⟨t, ht, rfl⟩ := List.mem_map.mp hs
    exact hinside t ht

theorem bilinear_inside_stretched :
    ∃ direct, ImageScaling_Bilinear_SSE2 5 ⟨5, 3⟩ ⟨2, 2⟩ = some direct ∧
      EachOnce ⟨5, 3⟩ (direct.map fun s => (s.y, s.column.x)) := by
  obtain ⟨-, -, -, direct, -, -, -, hdirect, -, honce, -⟩ :=
    bilinear_inside ⟨5, 3⟩ ⟨2, 2⟩ (by decide) (by decide) (by decide) (by decide) 5 (by decide)
  exact ⟨direct, hdirect, honce⟩

end TiraRdp.ImageProcess
