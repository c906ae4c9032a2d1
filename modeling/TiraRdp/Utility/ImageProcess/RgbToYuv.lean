import TiraRdp.Lib.Mmx
import TiraRdp.Utility.ImageProcess.YuvToRgb

/-!
# `ImageProcess`: from RGB to YUV

`BGRA32ToYUV444` and the 32-bit path of `BGRA32ToYUV444_SSE`
(`common/utility/private/common/ImageProcess.cpp:225-671`). The assembly is the list of its
instructions, block by block, with the registers of `Lib.Mmx`: eight pixels are a program for `Y`,
one for `U` and one for `V`, and each ends with a store of the register that it leaves the bytes in.
The second and the third use the blue and green of the even pixels that the first has left in `mm0`
and `mm3`.

Results:
* `runMmx_yProgram`, `runMmx_uProgram`, `runMmx_vProgram`: the bytes that a program leaves, and that
  it has overflown no lane.
* `BGRA32ToYUV444_SSE_agrees`: for widths that are a multiple of sixteen, both converters write the
  same rectangles; `Y` is at most one smaller, `U` and `V` at most one larger than in the scalar
  one.
-/

namespace TiraRdp.ImageProcess

open Lib Lib.Loop Lib.Raster Lib.Simd

/-- What has been stored in the three planes. -/
structure YuvStores where
  y : Stores
  u : Stores
  v : Stores

/-! ## The scalar version -/

def scalarY (iR iG iB : BitVec 8) : BitVec 8 :=
  BitVec.ofInt 8 ((19595 * iR.toNat + 38470 * iG.toNat + 7471 * iB.toNat + 32768 : Int) >>> (16 : Nat))

def scalarU (iR iG iB : BitVec 8) : BitVec 8 :=
  BitVec.ofInt 8 ((-11056 * iR.toNat - 21712 * iG.toNat + 32768 * iB.toNat + 8388608 : Int) >>> (16 : Nat))

def scalarV (iR iG iB : BitVec 8) : BitVec 8 :=
  BitVec.ofInt 8 ((32768 * iR.toNat - 27440 * iG.toNat - 5328 * iB.toNat + 8388608 : Int) >>> (16 : Nat))

structure YuvRow where
  pRgb : BitVec 32
  pY : BitVec 32
  pU : BitVec 32
  pV : BitVec 32
  stores : YuvStores

def bgraPixel (mRgb : Plane) (s : YuvRow) : YuvRow :=
  let iB := mRgb s.pRgb
  let iG := mRgb (s.pRgb + 1)
  let iR := mRgb (s.pRgb + 2)
  ⟨s.pRgb + 4, s.pY + 1, s.pU + 1, s.pV + 1,
    ⟨s.stores.y ++ [(s.pY, scalarY iR iG iB)], s.stores.u ++ [(s.pU, scalarU iR iG iB)],
      s.stores.v ++ [(s.pV, scalarV iR iG iB)]⟩⟩

def BGRA32ToYUV444 (mRgb : Plane) (uRgbStride uYuvStride uWidth uHeight : BitVec 32) : YuvStores :=
  let iRgbOffset := uRgbStride - uWidth * 4
  let iYuvOffset := uYuvStride - uWidth
  let row := upTo (fun _ s =>
    let s := upTo (fun _ s => bgraPixel mRgb s) uWidth.toNat s
    ⟨s.pRgb + iRgbOffset, s.pY + iYuvOffset, s.pU + iYuvOffset, s.pV + iYuvOffset, s.stores⟩)
    uHeight.toNat ⟨0, 0, 0, 0, ⟨[], [], []⟩⟩
  row.stores

/-! ## The programs -/

def xFF00FF00FF00FF00 : BitVec 64 := 0xFF00FF00FF00FF00
def x8080808080808080 : BitVec 64 := 0x8080808080808080
def multRY : BitVec 64 := 0x4C8B4C8B4C8B4C8B
def multGY : BitVec 64 := 0x9646964696469646
def multBY : BitVec 64 := 0x1D2F1D2F1D2F1D2F
def offBY : BitVec 64 := 0x0080008000800080
def multRU : BitVec 64 := 0x2B302B302B302B30
def multGU : BitVec 64 := 0x54D054D054D054D0
def multBU : BitVec 64 := 0x8000800080008000
def multRV : BitVec 64 := 0x8000800080008000
def multGV : BitVec 64 := 0x6B306B306B306B30
def multBV : BitVec 64 := 0x14D014D014D014D0

/-- The odd red and green: `mm2` and `mm5`. -/
def loadOddGreenRed : List Instr :=
  gather .mm2 5 ++ [.movq .mm5 .mm2, .psllw .mm2 8, .pand .mm5 .mm7]

/-- The even blue and green: `mm0` and `mm3`. -/
def loadEvenBlueGreen : List Instr :=
  gather .mm0 0 ++ [.movq .mm3 .mm0, .psllw .mm0 8, .pand .mm3 .mm7]

/-- The odd blue and the even red: `mm4` and `mm1`. -/
def loadOddBlueEvenRed : List Instr :=
  gather .mm1 3 ++ [.movq .mm4 .mm1, .pand .mm4 .mm7] ++ gather .mm1 2 ++ [.psllw .mm1 8]

/-- The lines before the sums. The blue and green of the even pixels are loaded for `Y` only. -/
def loads (multR : BitVec 64) (even : List Instr) : List Instr :=
  [.movqConst .mm6 multR, .movqConst .mm7 xFF00FF00FF00FF00] ++ loadOddGreenRed ++ even ++
    loadOddBlueEvenRed

/-- The sums for `Y`. -/
def ySums : List Instr :=
  [.movqConst .mm7 multGY, .pmulhuw .mm5 .mm6, .pmulhuw .mm2 .mm7, .paddw .mm2 .mm5,
    .movqConst .mm5 multBY, .pmulhuw .mm6 .mm1, .pmulhuw .mm7 .mm3, .paddw .mm6 .mm7,
    .movqConst .mm7 offBY, .pmulhuw .mm4 .mm5, .paddw .mm2 .mm7, .pmulhuw .mm5 .mm0, .paddw .mm6 .mm7,
    .movqConst .mm7 xFF00FF00FF00FF00, .paddw .mm2 .mm4, .paddw .mm5 .mm6, .psrlw .mm5 8,
    .pand .mm2 .mm7, .por .mm2 .mm5]

/-- `Get first 8 Y pixels`; the bytes are in `mm2`. -/
def yProgram : List Instr := loads multRY loadEvenBlueGreen ++ ySums

def uSums : List Instr :=
  [.movqConst .mm7 multGU, .pmulhuw .mm5 .mm6, .pmulhuw .mm2 .mm7, .paddw .mm2 .mm5,
    .movqConst .mm5 multBU, .pmulhuw .mm6 .mm1, .pmulhuw .mm7 .mm3, .paddw .mm6 .mm7,
    .pmulhuw .mm4 .mm5, .pmulhuw .mm5 .mm0, .movqConst .mm7 xFF00FF00FF00FF00, .psubw .mm4 .mm2,
    .psubw .mm5 .mm6, .psrlw .mm5 8, .pand .mm4 .mm7, .por .mm4 .mm5,
    .movqConst .mm7 x8080808080808080, .paddb .mm4 .mm7]

/-- `Get first 8 U pixels`; the bytes are in `mm4`. -/
def uProgram : List Instr := loads multRU [] ++ uSums

def vSums : List Instr :=
  [.movqConst .mm7 multGV, .pmulhuw .mm5 .mm6, .pmulhuw .mm2 .mm7, .psubw .mm5 .mm2,
    .movqConst .mm2 multBV, .pmulhuw .mm6 .mm1, .pmulhuw .mm7 .mm3, .psubw .mm6 .mm7,
    .pmulhuw .mm4 .mm2, .pmulhuw .mm2 .mm0, .movqConst .mm7 xFF00FF00FF00FF00, .psubw .mm5 .mm4,
    .psubw .mm6 .mm2, .psrlw .mm6 8, .pand .mm5 .mm7, .por .mm6 .mm5,
    .movqConst .mm7 x8080808080808080, .paddb .mm6 .mm7]

/-- `Get first 8 V pixels`; the bytes are in `mm6`. -/
def vProgram : List Instr := loads multRV [] ++ vSums

/-! ## What the programs compute -/

section Programs

variable {word : Nat → BitVec 16} {s : Mmx}

theorem lanesOf_eq {c : BitVec 64} {m : BitVec 16}
    (h : ∀ k : Fin 4, c.extractLsb' (16 * k) 16 = m) :
    lanesOf c = fun _ => m :=
  funext h

/-- The lanes of the constants. -/
theorem lanesOf_consts :
    lanesOf xFF00FF00FF00FF00 = (fun _ => 0xFF00) ∧ lanesOf x8080808080808080 = (fun _ => 0x8080) ∧
      lanesOf multRY = (fun _ => 19595) ∧ lanesOf multGY = (fun _ => 38470) ∧
      lanesOf multBY = (fun _ => 7471) ∧ lanesOf offBY = (fun _ => 128) ∧
      lanesOf multRU = (fun _ => 11056) ∧ lanesOf multGU = (fun _ => 21712) ∧
      lanesOf multBU = (fun _ => 32768) ∧ lanesOf multRV = (fun _ => 32768) ∧
      lanesOf multGV = (fun _ => 27440) ∧ lanesOf multBV = (fun _ => 5328) := by
  refine ⟨?_, ?_, ?_, ?_, ?_, ?_, ?_, ?_, ?_, ?_, ?_, ?_⟩
  all_goals exact lanesOf_eq (by decide)

/-- The colours of eight pixels, as the programs find them: words of green and red, and of blue or
red with an alpha. -/
structure Words (word : Nat → BitVec 16) (r g b : Nat → BitVec 8) : Prop where
  evenBlueGreen : ∀ k : Fin 4, word (0 + 8 * k) = g (2 * k) ++ b (2 * k)
  evenRed : ∀ k : Fin 4, ∃ a : BitVec 8, word (2 + 8 * k) = a ++ r (2 * k)
  oddBlue : ∀ k : Fin 4, ∃ a : BitVec 8, word (3 + 8 * k) = b (2 * k + 1) ++ a
  oddGreenRed : ∀ k : Fin 4, word (5 + 8 * k) = r (2 * k + 1) ++ g (2 * k + 1)

/-- A colour in the upper byte of a lane. -/
def up (c : BitVec 8) : BitVec 16 := c ++ 0#8

theorem append_shiftLeft (a c : BitVec 8) : (a ++ c : BitVec 16) <<< 8 = up c := by
  apply BitVec.eq_of_getLsbD_eq
  intro i hi
  rw [BitVec.getLsbD_shiftLeft, up, BitVec.getLsbD_append, BitVec.getLsbD_append]
  by_cases h : i < 8
  · simp [h]
  · have h8 : i - 8 < 8 := by omega
    simp [h, h8, hi]

theorem append_and_upper (a c : BitVec 8) : (a ++ c : BitVec 16) &&& 0xFF00 = up a := by
  have hmask : (0xFF00 : BitVec 16) = BitVec.allOnes 8 ++ 0#8 := by decide
  rw [hmask, BitVec.and_append, BitVec.and_allOnes, BitVec.and_zero]
  rfl

variable {r g b : Nat → BitVec 8}

theorem runMmx_loadOddGreenRed (h : Words word r g b) (h7 : s.mm7 = fun _ => 0xFF00) :
    runMmx word loadOddGreenRed s =
      { s with
        mm2 := fun k => up (g (2 * k + 1))
        mm5 := fun k => up (r (2 * k + 1)) } := by
  unfold loadOddGreenRed
  simp only [runMmx_append, runMmx_gather, runMmx_cons, runMmx_nil, Instr.step, Mmx.get, Mmx.set,
    h.oddGreenRed, append_shiftLeft, append_and_upper, h7]

theorem runMmx_loadEvenBlueGreen (h : Words word r g b) (h7 : s.mm7 = fun _ => 0xFF00) :
    runMmx word loadEvenBlueGreen s =
      { s with
        mm0 := fun k => up (b (2 * k))
        mm3 := fun k => up (g (2 * k)) } := by
  unfold loadEvenBlueGreen
  simp only [runMmx_append, runMmx_gather, runMmx_cons, runMmx_nil, Instr.step, Mmx.get, Mmx.set,
    h.evenBlueGreen, append_shiftLeft, append_and_upper, h7]

theorem runMmx_loadOddBlueEvenRed (h : Words word r g b) (h7 : s.mm7 = fun _ => 0xFF00) :
    runMmx word loadOddBlueEvenRed s =
      { s with
        mm4 := fun k => up (b (2 * k + 1))
        mm1 := fun k => up (r (2 * k)) } := by
  have hblue (k : Fin 4) : word (3 + 8 * k) &&& 0xFF00 = up (b (2 * k + 1)) := by
    obtain ⟨a, ha⟩ := h.oddBlue k
    rw [ha, append_and_upper]
  have hred (k : Fin 4) : word (2 + 8 * k) <<< 8 = up (r (2 * k)) := by
    obtain ⟨a, ha⟩ := h.evenRed k
    rw [ha, append_shiftLeft]
  unfold loadOddBlueEvenRed
  simp only [runMmx_append, runMmx_gather, runMmx_cons, runMmx_nil, Instr.step, Mmx.get, Mmx.set,
    hblue, hred, h7]

/-- The registers after the loads. -/
def loaded (r g b : Nat → BitVec 8) (mm6 : Lanes 4 16) (room : Bool) : Mmx where
  mm0 := fun k => up (b (2 * k))
  mm1 := fun k => up (r (2 * k))
  mm2 := fun k => up (g (2 * k + 1))
  mm3 := fun k => up (g (2 * k))
  mm4 := fun k => up (b (2 * k + 1))
  mm5 := fun k => up (r (2 * k + 1))
  mm6 := mm6
  mm7 := fun _ => 0xFF00
  room := room

theorem runMmx_loads_all (h : Words word r g b) (multR : BitVec 64) :
    runMmx word (loads multR loadEvenBlueGreen) s = loaded r g b (lanesOf multR) s.room := by
  have hstart : runMmx word [.movqConst .mm6 multR, .movqConst .mm7 xFF00FF00FF00FF00] s =
      { s with
        mm6 := lanesOf multR
        mm7 := fun _ => 0xFF00 } := by
    rw [← lanesOf_consts.1]
    rfl
  unfold loads
  rw [runMmx_append, runMmx_append, runMmx_append, hstart, runMmx_loadOddGreenRed h rfl,
    runMmx_loadEvenBlueGreen h rfl, runMmx_loadOddBlueEvenRed h rfl]
  rfl

/-- For `U` and `V`, the even blue and green are there already. -/
theorem runMmx_loads_odd (h : Words word r g b) (h0 : s.mm0 = fun k : Fin 4 => up (b (2 * k)))
    (h3 : s.mm3 = fun k : Fin 4 => up (g (2 * k))) (multR : BitVec 64) :
    runMmx word (loads multR []) s = loaded r g b (lanesOf multR) s.room := by
  have hstart : runMmx word [.movqConst .mm6 multR, .movqConst .mm7 xFF00FF00FF00FF00] s =
      { s with
        mm6 := lanesOf multR
        mm7 := fun _ => 0xFF00 } := by
    rw [← lanesOf_consts.1]
    rfl
  unfold loads loaded
  rw [runMmx_append, runMmx_append, runMmx_append, hstart, runMmx_loadOddGreenRed h rfl, runMmx_nil,
    runMmx_loadOddBlueEvenRed h rfl, ← h0, ← h3]

/-- A colour times a coefficient of sixteen bits, in units of the upper byte of a lane. -/
def scaled (m : Nat) (c : BitVec 8) : BitVec 16 := BitVec.ofNat 16 (c.toNat * m / 256)

theorem mulhu_up (c : BitVec 8) (m : BitVec 16) : mulhu (up c) m = scaled m.toNat c := by
  have hup : (up c).toNat = c.toNat * 256 := by
    rw [up, BitVec.toNat_append, Nat.shiftLeft_eq]
    simp
  have hdiv : c.toNat * m.toNat * 256 / 2 ^ 16 = c.toNat * m.toNat / 256 :=
    Nat.mul_div_mul_right _ 256 (by decide : 0 < 256)
  rw [mulhu, scaled, hup, Nat.mul_right_comm, hdiv]

theorem up_mulhu (c : BitVec 8) (m : BitVec 16) : mulhu m (up c) = scaled m.toNat c := by
  rw [← mulhu_up, mulhu, mulhu, Nat.mul_comm]

/-- The upper bytes of an odd and of an even lane. -/
def merge (odd even : BitVec 16) : BitVec 16 := odd.extractLsb' 8 8 ++ even.extractLsb' 8 8

theorem and_or_merge (a c : BitVec 16) : a &&& (0xFF00 : BitVec 16) ||| c >>> 8 = merge a c := by
  have ha : a.extractLsb' 8 8 ++ a.extractLsb' 0 8 = a := BitVec.extractLsb'_append_extractLsb'
  have hshift : c >>> 8 = 0#8 ++ c.extractLsb' 8 8 := by
    rw [← BitVec.toNat_inj, BitVec.toNat_append, BitVec.extractLsb'_toNat, BitVec.toNat_ushiftRight]
    have hc := c.isLt
    simp only [BitVec.toNat_ofNat, Nat.shiftRight_eq_div_pow, Nat.zero_mod,
      Nat.zero_shiftLeft, Nat.zero_or]
    omega
  have hand : a &&& 0xFF00 = up (a.extractLsb' 8 8) := by
    rw [← append_and_upper _ (a.extractLsb' 0 8), ha]
  rw [hand, hshift, up, BitVec.or_append, BitVec.or_zero, BitVec.zero_or, merge]

theorem addBytes_merge (a c : BitVec 16) :
    addBytes (merge a c) 0x8080 = (a.extractLsb' 8 8 + 0x80) ++ (c.extractLsb' 8 8 + 0x80) := by
  unfold addBytes merge
  rw [BitVec.extractLsb'_append_eq_left, BitVec.extractLsb'_append_eq_right]
  rfl

/-! ### The bytes -/

def sseY (iR iG iB : BitVec 8) : BitVec 8 :=
  BitVec.ofNat 8
    ((iR.toNat * 19595 / 256 + iG.toNat * 38470 / 256 + iB.toNat * 7471 / 256 + 128) / 256)

def sseU (iR iG iB : BitVec 8) : BitVec 8 :=
  BitVec.ofInt 8
    ((iB.toNat * 32768 / 256 - iR.toNat * 11056 / 256 - iG.toNat * 21712 / 256 : Int) / 256 + 128)

def sseV (iR iG iB : BitVec 8) : BitVec 8 :=
  BitVec.ofInt 8
    ((iR.toNat * 32768 / 256 - iG.toNat * 27440 / 256 - iB.toNat * 5328 / 256 : Int) / 256 + 128)

theorem toNat_upper (a : BitVec 16) : (a.extractLsb' 8 8).toNat = a.toNat / 256 := by
  have ha := a.isLt
  rw [BitVec.extractLsb'_toNat, Nat.shiftRight_eq_div_pow]
  omega

/-- A sum of lanes that has room. -/
theorem upper_ofNat {r g b : Nat} (h : r + g + b + 128 < 65536) :
    (BitVec.ofNat 16 g + BitVec.ofNat 16 r + 128#16 + BitVec.ofNat 16 b).extractLsb' 8 8 =
      BitVec.ofNat 8 ((r + g + b + 128) / 256) := by
  have hsum : BitVec.ofNat 16 g + BitVec.ofNat 16 r + 128#16 + BitVec.ofNat 16 b =
      BitVec.ofNat 16 (r + g + b + 128) := by
    simp only [BitVec.ofNat_add]
    grind
  have hbyte : (r + g + b + 128) / 256 < 2 ^ 8 := by omega
  rw [hsum, ← BitVec.toNat_inj, toNat_upper, BitVec.toNat_ofNat, BitVec.toNat_ofNat,
    Nat.mod_eq_of_lt h, Nat.mod_eq_of_lt hbyte]

/-- A difference of lanes, to which 128 is added after the shift. -/
theorem upper_ofInt {x : Int} (hlo : -32768 ≤ x) (hhi : x < 32768) :
    (BitVec.ofInt 16 x).extractLsb' 8 8 + 0x80 = BitVec.ofInt 8 (x / 256 + 128) := by
  have h128 : (0x80 : BitVec 8) = BitVec.ofInt 8 128 := by decide
  have hupper : (BitVec.ofInt 16 x).extractLsb' 8 8 = BitVec.ofInt 8 (x / 256) := by
    rw [← BitVec.toNat_inj, toNat_upper, BitVec.toNat_ofInt, BitVec.toNat_ofInt]
    omega
  rw [hupper, h128, BitVec.ofInt_add]

theorem upper_y (iR iG iB : BitVec 8) :
    (scaled 38470 iG + scaled 19595 iR + 128 + scaled 7471 iB).extractLsb' 8 8 = sseY iR iG iB := by
  exact upper_ofNat (by omega)

/-- A scaled colour as an integer. -/
theorem scaled_eq_ofInt (m : Nat) (c : BitVec 8) :
    scaled m c = BitVec.ofInt 16 (c.toNat * m / 256) := by
  rw [scaled, ← BitVec.ofInt_natCast]
  rfl

theorem upper_u (iR iG iB : BitVec 8) :
    (scaled 32768 iB - (scaled 21712 iG + scaled 11056 iR)).extractLsb' 8 8 + 0x80 =
    sseU iR iG iB := by
  rw [scaled_eq_ofInt, scaled_eq_ofInt, scaled_eq_ofInt, ← BitVec.ofInt_add, ← ofInt_sub,
    upper_ofInt (by omega) (by omega), sseU, Int.sub_sub, Int.add_comm (iR.toNat * 11056 / 256 : Int)]
  rfl

theorem upper_v (iR iG iB : BitVec 8) :
    (scaled 32768 iR - scaled 27440 iG - scaled 5328 iB).extractLsb' 8 8 + 0x80 =
    sseV iR iG iB := by
  rw [scaled_eq_ofInt, scaled_eq_ofInt, scaled_eq_ofInt, ← ofInt_sub, ← ofInt_sub,
    upper_ofInt (by omega) (by omega), sseV]
  rfl

/-! ### What the sums leave -/

/-- The bytes of eight pixels, two of them in every lane. -/
def bytes (f : BitVec 8 → BitVec 8 → BitVec 8 → BitVec 8) (r g b : Nat → BitVec 8) :
    Lanes 4 16 := fun k =>
  f (r (2 * k + 1)) (g (2 * k + 1)) (b (2 * k + 1)) ++ f (r (2 * k)) (g (2 * k)) (b (2 * k))

theorem mm2_ySums {room : Bool} :
    (runMmx word ySums (loaded r g b (lanesOf multRY) room)).mm2 = bytes sseY r g b := by
  have hsums : (runMmx word ySums (loaded r g b (lanesOf multRY) room)).mm2 = fun k : Fin 4 =>
      (mulhu (up (g (2 * k + 1))) (lanesOf multGY k) + mulhu (up (r (2 * k + 1))) (lanesOf multRY k) +
        lanesOf offBY k + mulhu (up (b (2 * k + 1))) (lanesOf multBY k)) &&& lanesOf xFF00FF00FF00FF00 k |||
      (mulhu (lanesOf multBY k) (up (b (2 * k))) + (mulhu (lanesOf multRY k) (up (r (2 * k))) +
        mulhu (lanesOf multGY k) (up (g (2 * k))) + lanesOf offBY k)) >>> 8 := rfl
  rw [hsums]
  funext k
  have hodd := upper_y (r (2 * k + 1)) (g (2 * k + 1)) (b (2 * k + 1))
  have heven := upper_y (r (2 * k)) (g (2 * k)) (b (2 * k))
  rw [BitVec.add_comm, BitVec.add_comm (scaled 38470 _)] at heven
  simp only [lanesOf_consts, mulhu_up, up_mulhu, and_or_merge, merge, bytes, ← hodd, ← heven]
  rfl

theorem mm4_uSums {room : Bool} :
    (runMmx word uSums (loaded r g b (lanesOf multRU) room)).mm4 = bytes sseU r g b := by
  have hsums : (runMmx word uSums (loaded r g b (lanesOf multRU) room)).mm4 = fun k : Fin 4 =>
      addBytes
        ((mulhu (up (b (2 * k + 1))) (lanesOf multBU k) - (mulhu (up (g (2 * k + 1))) (lanesOf multGU k) +
          mulhu (up (r (2 * k + 1))) (lanesOf multRU k))) &&& lanesOf xFF00FF00FF00FF00 k |||
        (mulhu (lanesOf multBU k) (up (b (2 * k))) - (mulhu (lanesOf multRU k) (up (r (2 * k))) +
          mulhu (lanesOf multGU k) (up (g (2 * k))))) >>> 8)
        (lanesOf x8080808080808080 k) := rfl
  rw [hsums]
  funext k
  have hodd := upper_u (r (2 * k + 1)) (g (2 * k + 1)) (b (2 * k + 1))
  have heven := upper_u (r (2 * k)) (g (2 * k)) (b (2 * k))
  rw [BitVec.add_comm (scaled 21712 _)] at heven
  simp only [lanesOf_consts, mulhu_up, up_mulhu, and_or_merge, addBytes_merge, bytes,
    ← hodd, ← heven]
  rfl

theorem mm6_vSums {room : Bool} :
    (runMmx word vSums (loaded r g b (lanesOf multRV) room)).mm6 = bytes sseV r g b := by
  have hsums : (runMmx word vSums (loaded r g b (lanesOf multRV) room)).mm6 = fun k : Fin 4 =>
      addBytes
        ((mulhu (lanesOf multRV k) (up (r (2 * k))) - mulhu (lanesOf multGV k) (up (g (2 * k))) -
          mulhu (lanesOf multBV k) (up (b (2 * k)))) >>> 8 |||
        (mulhu (up (r (2 * k + 1))) (lanesOf multRV k) - mulhu (up (g (2 * k + 1))) (lanesOf multGV k) -
          mulhu (up (b (2 * k + 1))) (lanesOf multBV k)) &&& lanesOf xFF00FF00FF00FF00 k)
        (lanesOf x8080808080808080 k) := rfl
  rw [hsums]
  funext k
  have hodd := upper_v (r (2 * k + 1)) (g (2 * k + 1)) (b (2 * k + 1))
  have heven := upper_v (r (2 * k)) (g (2 * k)) (b (2 * k))
  rw [BitVec.or_comm]
  simp only [lanesOf_consts, mulhu_up, up_mulhu, and_or_merge, addBytes_merge, bytes,
    ← hodd, ← heven]
  rfl

/-! ### No lane overflows -/

theorem no_carry {x y : Nat} (h : x + y < 65536) :
    (!(BitVec.ofNat 16 x).uaddOverflow (BitVec.ofNat 16 y)) = true := by
  have hx : x % 65536 = x := Nat.mod_eq_of_lt (by omega)
  have hy : y % 65536 = y := Nat.mod_eq_of_lt (by omega)
  have hle : ¬ 2 ^ 16 ≤ x + y := by omega
  unfold BitVec.uaddOverflow
  rw [BitVec.toNat_ofNat, BitVec.toNat_ofNat, hx, hy, decide_eq_false hle]
  rfl

theorem no_borrow {x y : Int} (hx : -32768 ≤ x ∧ x < 32768) (hy : -32768 ≤ y ∧ y < 32768)
    (hxy : -32768 ≤ x - y ∧ x - y < 32768) :
    (!(BitVec.ofInt 16 x).ssubOverflow (BitVec.ofInt 16 y)) = true := by
  have hhi : ¬ x - y ≥ 2 ^ (16 - 1) := not_le_of_gt hxy.2
  have hlo : ¬ x - y < -2 ^ (16 - 1) := not_lt_of_ge hxy.1
  unfold BitVec.ssubOverflow
  rw [toInt_ofInt_of_inRange (w := 16) (by decide) hx,
    toInt_ofInt_of_inRange (w := 16) (by decide) hy,
    decide_eq_false hhi, decide_eq_false hlo]
  rfl

theorem and_decide {room : Bool} {p : Prop} [Decidable p] (h : p) : (room && decide p) = room := by
  rw [decide_eq_true h, Bool.and_true]

theorem room_ySums {room : Bool} :
    (runMmx word ySums (loaded r g b (lanesOf multRY) room)).room = room := by
  have hoff : (128 : BitVec 16) = BitVec.ofNat 16 128 := rfl
  have hsums : (runMmx word ySums (loaded r g b (lanesOf multRY) room)).room =
      (room &&
        decide (∀ k : Fin 4, (!(mulhu (up (g (2 * k + 1))) (lanesOf multGY k)).uaddOverflow
          (mulhu (up (r (2 * k + 1))) (lanesOf multRY k))) = true) &&
        decide (∀ k : Fin 4, (!(mulhu (lanesOf multRY k) (up (r (2 * k)))).uaddOverflow
          (mulhu (lanesOf multGY k) (up (g (2 * k))))) = true) &&
        decide (∀ k : Fin 4, (!(mulhu (up (g (2 * k + 1))) (lanesOf multGY k) +
          mulhu (up (r (2 * k + 1))) (lanesOf multRY k)).uaddOverflow (lanesOf offBY k)) = true) &&
        decide (∀ k : Fin 4, (!(mulhu (lanesOf multRY k) (up (r (2 * k))) +
          mulhu (lanesOf multGY k) (up (g (2 * k)))).uaddOverflow (lanesOf offBY k)) = true) &&
        decide (∀ k : Fin 4, (!(mulhu (up (g (2 * k + 1))) (lanesOf multGY k) +
          mulhu (up (r (2 * k + 1))) (lanesOf multRY k) + lanesOf offBY k).uaddOverflow
            (mulhu (up (b (2 * k + 1))) (lanesOf multBY k))) = true) &&
        decide (∀ k : Fin 4, (!(mulhu (lanesOf multBY k) (up (b (2 * k)))).uaddOverflow
          (mulhu (lanesOf multRY k) (up (r (2 * k))) + mulhu (lanesOf multGY k) (up (g (2 * k))) +
            lanesOf offBY k)) = true)) := rfl
  rw [hsums]
  simp only [lanesOf_consts, mulhu_up, up_mulhu, BitVec.reduceToNat, scaled, hoff,
    ← BitVec.ofNat_add]
  rw [and_decide, and_decide, and_decide, and_decide, and_decide, and_decide]
  all_goals
    intro k
    apply no_carry
    omega

theorem room_uSums {room : Bool} :
    (runMmx word uSums (loaded r g b (lanesOf multRU) room)).room = room := by
  have hsums : (runMmx word uSums (loaded r g b (lanesOf multRU) room)).room =
      (room &&
        decide (∀ k : Fin 4, (!(mulhu (up (g (2 * k + 1))) (lanesOf multGU k)).uaddOverflow
          (mulhu (up (r (2 * k + 1))) (lanesOf multRU k))) = true) &&
        decide (∀ k : Fin 4, (!(mulhu (lanesOf multRU k) (up (r (2 * k)))).uaddOverflow
          (mulhu (lanesOf multGU k) (up (g (2 * k))))) = true) &&
        decide (∀ k : Fin 4, (!(mulhu (up (b (2 * k + 1))) (lanesOf multBU k)).ssubOverflow
          (mulhu (up (g (2 * k + 1))) (lanesOf multGU k) +
            mulhu (up (r (2 * k + 1))) (lanesOf multRU k))) = true) &&
        decide (∀ k : Fin 4, (!(mulhu (lanesOf multBU k) (up (b (2 * k)))).ssubOverflow
          (mulhu (lanesOf multRU k) (up (r (2 * k))) + mulhu (lanesOf multGU k) (up (g (2 * k))))) =
            true)) := rfl
  rw [hsums]
  simp only [lanesOf_consts, mulhu_up, up_mulhu, BitVec.reduceToNat]
  rw [and_decide, and_decide, and_decide, and_decide]
  · intro k
    exact no_carry (by omega)
  · intro k
    exact no_carry (by omega)
  · intro k
    rw [scaled_eq_ofInt, scaled_eq_ofInt, scaled_eq_ofInt, ← BitVec.ofInt_add]
    exact no_borrow (by omega) (by omega) (by omega)
  · intro k
    rw [scaled_eq_ofInt, scaled_eq_ofInt, scaled_eq_ofInt, ← BitVec.ofInt_add]
    exact no_borrow (by omega) (by omega) (by omega)

theorem room_vSums {room : Bool} :
    (runMmx word vSums (loaded r g b (lanesOf multRV) room)).room = room := by
  have hsums : (runMmx word vSums (loaded r g b (lanesOf multRV) room)).room =
      (room &&
        decide (∀ k : Fin 4, (!(mulhu (up (r (2 * k + 1))) (lanesOf multRV k)).ssubOverflow
          (mulhu (up (g (2 * k + 1))) (lanesOf multGV k))) = true) &&
        decide (∀ k : Fin 4, (!(mulhu (lanesOf multRV k) (up (r (2 * k)))).ssubOverflow
          (mulhu (lanesOf multGV k) (up (g (2 * k))))) = true) &&
        decide (∀ k : Fin 4, (!(mulhu (up (r (2 * k + 1))) (lanesOf multRV k) -
          mulhu (up (g (2 * k + 1))) (lanesOf multGV k)).ssubOverflow
            (mulhu (up (b (2 * k + 1))) (lanesOf multBV k))) = true) &&
        decide (∀ k : Fin 4, (!(mulhu (lanesOf multRV k) (up (r (2 * k))) -
          mulhu (lanesOf multGV k) (up (g (2 * k)))).ssubOverflow
            (mulhu (lanesOf multBV k) (up (b (2 * k))))) = true)) := rfl
  rw [hsums]
  simp only [lanesOf_consts, mulhu_up, up_mulhu, BitVec.reduceToNat, scaled_eq_ofInt, ← ofInt_sub]
  rw [and_decide, and_decide, and_decide, and_decide]
  all_goals
    intro k
    exact no_borrow (by omega) (by omega) (by omega)

/-! ### The programs -/

/-- The blue and green of the even pixels, which the second and the third program use. -/
def EvenLoaded (g b : Nat → BitVec 8) (s : Mmx) : Prop :=
  s.mm0 = (fun k : Fin 4 => up (b (2 * k))) ∧ s.mm3 = fun k : Fin 4 => up (g (2 * k))

theorem runMmx_yProgram (h : Words word r g b) :
    (runMmx word yProgram s).mm2 = bytes sseY r g b ∧ (runMmx word yProgram s).room = s.room ∧
      EvenLoaded g b (runMmx word yProgram s) := by
  unfold yProgram
  rw [runMmx_append, runMmx_loads_all h]
  exact ⟨mm2_ySums, room_ySums, rfl, rfl⟩

theorem runMmx_uProgram (h : Words word r g b) (heven : EvenLoaded g b s) :
    (runMmx word uProgram s).mm4 = bytes sseU r g b ∧ (runMmx word uProgram s).room = s.room ∧
      EvenLoaded g b (runMmx word uProgram s) := by
  unfold uProgram
  rw [runMmx_append, runMmx_loads_odd h heven.1 heven.2]
  exact ⟨mm4_uSums, room_uSums, rfl, rfl⟩

theorem runMmx_vProgram (h : Words word r g b) (heven : EvenLoaded g b s) :
    (runMmx word vProgram s).mm6 = bytes sseV r g b ∧ (runMmx word vProgram s).room = s.room := by
  unfold vProgram
  rw [runMmx_append, runMmx_loads_odd h heven.1 heven.2]
  exact ⟨mm6_vSums, room_vSums⟩

end Programs

/-! ## The loops -/

structure MmxRow where
  esi : BitVec 32
  edi : BitVec 32
  eax : BitVec 32
  ebx : BitVec 32
  ecx : BitVec 32
  edx : BitVec 32
  mmx : Mmx
  stores : YuvStores

/-- `movq [p], v`. -/
def storeLanes (p : BitVec 32) (v : Lanes 4 16) : Stores :=
  List.ofFn fun i : Fin 8 => (p + BitVec.ofNat 32 i, halves (n := 4) (w := 8) v i)

def wordAt (mRgb : Plane) (esi : BitVec 32) (offset : Nat) : BitVec 16 :=
  mRgb (esi + BitVec.ofNat 32 (offset + 1)) ++ mRgb (esi + BitVec.ofNat 32 offset)

/-- `Get first 8 Y pixels` to the four additions, and the same for the second eight. -/
def eightPixels (mRgb : Plane) (s : MmxRow) : MmxRow :=
  let y := runMmx (wordAt mRgb s.esi) yProgram s.mmx
  let u := runMmx (wordAt mRgb s.esi) uProgram y
  let v := runMmx (wordAt mRgb s.esi) vProgram u
  { s with
    esi := s.esi + 32
    edi := s.edi + 8
    eax := s.eax + 8
    ebx := s.ebx + 8
    mmx := v
    stores := ⟨s.stores.y ++ storeLanes s.edi y.mm2, s.stores.u ++ storeLanes s.eax u.mm4,
      s.stores.v ++ storeLanes s.ebx v.mm6⟩ }

/-- `LoopInLine`. -/
def sixteenPixels (mRgb : Plane) (s : MmxRow) : MmxRow :=
  let t := eightPixels mRgb (eightPixels mRgb s)
  { t with edx := t.edx - 1 }

/-- `LoopRefresh`. -/
def mmxLine (fuel : Nat) (mRgb : Plane) (rgbOffset yuvOffset mbCountInLine : BitVec 32)
    (s : MmxRow) :
    Option MmxRow :=
  (doWhile (fun s => some (sixteenPixels mRgb s)) (fun s => s.edx != 0#32) fuel s).map fun t =>
    { t with
      esi := t.esi + rgbOffset
      edi := t.edi + yuvOffset
      eax := t.eax + yuvOffset
      ebx := t.ebx + yuvOffset
      edx := mbCountInLine
      ecx := t.ecx - 1 }

/-- What has been stored, and the MMX registers, which the assembly takes over as they are. -/
def BGRA32ToYUV444_SSE (fuel : Nat) (mmx : Mmx) (mRgb : Plane)
    (uRgbStride uYuvStride uWidth uHeight : BitVec 32) : Option (YuvStores × Mmx) :=
  if uWidth % 16 ≠ 0 ∨ uWidth = 0 then
    some (BGRA32ToYUV444 mRgb uRgbStride uYuvStride uWidth uHeight, mmx)
  else
    let mbCountInLine := uWidth / 16
    (doWhile (mmxLine fuel mRgb (uRgbStride - uWidth * 4) (uYuvStride - uWidth) mbCountInLine)
      (fun s => s.ecx != 0#32) fuel
      ⟨0, 0, 0, 0, uHeight, mbCountInLine, mmx, ⟨[], [], []⟩⟩).map fun t => (t.stores, t.mmx)

/-- A plane: `f` of the red, green and blue of every pixel. -/
def plane (f : BitVec 8 → BitVec 8 → BitVec 8 → BitVec 8) (mRgb : Plane) (uRgbStride : BitVec 32)
    (i j : Nat) : BitVec 8 :=
  f (mRgb (place uRgbStride i (4 * j + 2))) (mRgb (place uRgbStride i (4 * j + 1)))
    (mRgb (place uRgbStride i (4 * j)))

section Loops

variable {fY fU fV : BitVec 8 → BitVec 8 → BitVec 8 → BitVec 8} {mRgb : Plane} {rs ys : BitVec 32}
  {w h i c n fuel : Nat}

/-- The three planes are painted up to column `c` of line `i`. -/
structure YuvStores.UpTo (fY fU fV : BitVec 8 → BitVec 8 → BitVec 8 → BitVec 8) (mRgb : Plane)
    (rs ys : BitVec 32) (w i c : Nat) (s : YuvStores) : Prop where
  y : Paints ys (plane fY mRgb rs) (Scanned 1 w i c) s.y
  u : Paints ys (plane fU mRgb rs) (Scanned 1 w i c) s.u
  v : Paints ys (plane fV mRgb rs) (Scanned 1 w i c) s.v

/-- `n` pixels more. -/
theorem paints_more {f : BitVec 8 → BitVec 8 → BitVec 8 → BitVec 8} {log : Stores}
    (h : Paints ys (plane f mRgb rs) (Scanned 1 w i c) log) :
    Paints ys (plane f mRgb rs) (Scanned 1 w i (c + n))
      (log ++ block (place ys i c) n fun t => plane f mRgb rs i (c + t)) := by
  refine (h.append (paints_block fun t _ => rfl)).congr fun j x => ?_
  unfold Scanned
  omega

theorem YuvStores.UpTo.more {s : YuvStores} (h : s.UpTo fY fU fV mRgb rs ys w i c) :
    YuvStores.UpTo fY fU fV mRgb rs ys w i (c + n)
      ⟨s.y ++ block (place ys i c) n (fun t => plane fY mRgb rs i (c + t)),
        s.u ++ block (place ys i c) n (fun t => plane fU mRgb rs i (c + t)),
        s.v ++ block (place ys i c) n (fun t => plane fV mRgb rs i (c + t))⟩ :=
  ⟨paints_more h.y, paints_more h.u, paints_more h.v⟩

theorem YuvStores.UpTo.next {s : YuvStores} (h : s.UpTo fY fU fV mRgb rs ys w i w) :
    s.UpTo fY fU fV mRgb rs ys w (i + 1) 0 :=
  ⟨h.y.congr scanned_next, h.u.congr scanned_next, h.v.congr scanned_next⟩

theorem YuvStores.upTo_zero : YuvStores.UpTo fY fU fV mRgb rs ys w 0 0 ⟨[], [], []⟩ :=
  ⟨paints_nil not_scanned_zero, paints_nil not_scanned_zero, paints_nil not_scanned_zero⟩

/-! ### The scalar loops -/

structure YuvRow.At (mRgb : Plane) (rs ys : BitVec 32) (w i c : Nat) (s : YuvRow) : Prop where
  pRgb : s.pRgb = place rs i (4 * c)
  pY : s.pY = place ys i c
  pU : s.pU = place ys i c
  pV : s.pV = place ys i c
  stores : s.stores.UpTo scalarY scalarU scalarV mRgb rs ys w i c

theorem block_one {p : BitVec 32} {f : Nat → BitVec 8} : block p 1 f = [(p, f 0)] := by
  simp [block, List.range, List.range.loop]

theorem YuvRow.At.bgraPixel {s : YuvRow} (hs : s.At mRgb rs ys w i c) :
    (bgraPixel mRgb s).At mRgb rs ys w i (c + 1) := by
  unfold ImageProcess.bgraPixel
  constructor
  · rw [hs.pRgb]
    exact place_add 4
  · rw [hs.pY]
    exact place_add 1
  · rw [hs.pU]
    exact place_add 1
  · rw [hs.pV]
    exact place_add 1
  · have hmore := hs.stores.more (n := 1)
    rw [block_one, block_one, block_one] at hmore
    have hgreen : s.pRgb + 1 = place rs i (4 * c + 1) := by rw [hs.pRgb]; exact place_add 1
    have hred : s.pRgb + 2 = place rs i (4 * c + 2) := by rw [hs.pRgb]; exact place_add 2
    rw [hgreen, hred, hs.pRgb, hs.pY, hs.pU, hs.pV]
    exact hmore

section Ends

variable {uWidth uHeight : BitVec 32}

theorem uWidth_mul_four : uWidth * 4 = BitVec.ofNat 32 (4 * uWidth.toNat) := by
  rw [BitVec.ofNat_mul, BitVec.ofNat_toNat, BitVec.setWidth_eq, BitVec.mul_comm]
  rfl

/-- `rgbOffset` and `yuvOffset` lead from the end of a line to the next one. -/
theorem place_rgbOffset :
    place rs i (4 * uWidth.toNat) + (rs - uWidth * 4) = place rs (i + 1) 0 := by
  rw [uWidth_mul_four]
  exact place_next

theorem place_yuvOffset : place ys i uWidth.toNat + (ys - uWidth) = place ys (i + 1) 0 := by
  have hnext : place ys i uWidth.toNat + (ys - BitVec.ofNat 32 uWidth.toNat) = place ys (i + 1) 0 :=
    place_next
  rwa [BitVec.ofNat_toNat, BitVec.setWidth_eq] at hnext

theorem upTo_BGRA32ToYUV444 (mRgb : Plane) (rs ys uWidth uHeight : BitVec 32) :
    (BGRA32ToYUV444 mRgb rs ys uWidth uHeight).UpTo scalarY scalarU scalarV mRgb rs ys uWidth.toNat
      uHeight.toNat 0 := by
  refine (upTo_invariant _ (fun i (s : YuvRow) => s.At mRgb rs ys uWidth.toNat i 0)
    ⟨place_zero.symm, place_zero.symm, place_zero.symm, place_zero.symm, YuvStores.upTo_zero⟩
    fun i s _ hs => ?_).stores
  have hend := upTo_invariant (fun _ s => bgraPixel mRgb s)
    (fun c (s : YuvRow) => s.At mRgb rs ys uWidth.toNat i c)
    (n := uWidth.toNat) hs fun c s _ hs => hs.bgraPixel
  refine ⟨?_, ?_, ?_, ?_, hend.stores.next⟩
  · exact (congrArg (· + (rs - uWidth * 4)) hend.pRgb).trans place_rgbOffset
  · exact (congrArg (· + (ys - uWidth)) hend.pY).trans place_yuvOffset
  · exact (congrArg (· + (ys - uWidth)) hend.pU).trans place_yuvOffset
  · exact (congrArg (· + (ys - uWidth)) hend.pV).trans place_yuvOffset

end Ends

/-! ### The assembly -/

/-- At column `c` of line `i`. -/
structure MmxRow.At (mRgb : Plane) (rs ys : BitVec 32) (w i c : Nat) (s : MmxRow) : Prop where
  esi : s.esi = place rs i (4 * c)
  edi : s.edi = place ys i c
  eax : s.eax = place ys i c
  ebx : s.ebx = place ys i c
  room : s.mmx.room = true
  stores : s.stores.UpTo sseY sseU sseV mRgb rs ys w i c

theorem storeLanes_bytes {p : BitVec 32} {f : BitVec 8 → BitVec 8 → BitVec 8 → BitVec 8}
    {r g b : Nat → BitVec 8} :
    storeLanes p (bytes f r g b) = block p 8 fun t => f (r t) (g t) (b t) := by
  have hlane (t : Fin 8) : halves (n := 4) (w := 8) (bytes f r g b) t = f (r t) (g t) (b t) := by
    unfold halves bytes
    split_ifs with ht
    · have heven : 2 * (t.val / 2) = t := by omega
      simp only [heven]
      exact BitVec.extractLsb'_append_eq_right
    · have hodd : 2 * (t.val / 2) + 1 = t := by omega
      simp only [hodd]
      exact BitVec.extractLsb'_append_eq_left
  unfold storeLanes block
  rw [← List.map_coe_finRange_eq_range, List.map_map, List.ofFn_eq_map]
  refine List.map_congr_left fun t _ => ?_
  simp only [hlane, Function.comp_apply]

/-- The words beside the pointer hold the colours of the next pixels. -/
theorem words_at (mRgb : Plane) (rs : BitVec 32) (i c : Nat) :
    Words (wordAt mRgb (place rs i (4 * c)))
    (fun t => mRgb (place rs i (4 * (c + t) + 2))) (fun t => mRgb (place rs i (4 * (c + t) + 1)))
    (fun t => mRgb (place rs i (4 * (c + t)))) := by
  have hbyte {n m : Nat} (h : 4 * c + n = m) :
      mRgb (place rs i (4 * c) + BitVec.ofNat 32 n) = mRgb (place rs i m) := by
    rw [place_add, h]
  constructor
  · intro k
    rw [wordAt, hbyte (m := 4 * (c + 2 * k) + 1) (by omega),
      hbyte (m := 4 * (c + 2 * k)) (by omega)]
  · intro k
    rw [wordAt, hbyte (n := 2 + 8 * k) (m := 4 * (c + 2 * k) + 2) (by omega)]
    exact ⟨_, rfl⟩
  · intro k
    rw [wordAt, hbyte (n := 3 + 8 * k + 1) (m := 4 * (c + (2 * k + 1))) (by omega)]
    exact ⟨_, rfl⟩
  · intro k
    rw [wordAt, hbyte (m := 4 * (c + (2 * k + 1)) + 2) (by omega),
      hbyte (m := 4 * (c + (2 * k + 1)) + 1) (by omega)]

theorem MmxRow.At.eightPixels {s : MmxRow} (hs : s.At mRgb rs ys w i c) :
    (eightPixels mRgb s).At mRgb rs ys w i (c + 8) := by
  have hwords := words_at mRgb rs i c
  obtain ⟨hy, hyroom, hyeven⟩ := runMmx_yProgram (s := s.mmx) hwords
  obtain ⟨hu, huroom, hueven⟩ := runMmx_uProgram hwords hyeven
  obtain ⟨hv, hvroom⟩ := runMmx_vProgram hwords hueven
  unfold ImageProcess.eightPixels
  rw [hs.esi, hs.edi, hs.eax, hs.ebx]
  constructor
  · exact place_add 32
  · exact place_add 8
  · exact place_add 8
  · exact place_add 8
  · exact hvroom.trans (huroom.trans (hyroom.trans hs.room))
  · show YuvStores.UpTo _ _ _ _ _ _ _ _ _ ⟨_ ++ storeLanes _ _, _ ++ storeLanes _ _, _ ++ storeLanes _ _⟩
    rw [hy, hu, hv, storeLanes_bytes, storeLanes_bytes, storeLanes_bytes]
    exact hs.stores.more

/-- A register that counts down from `k` has come to zero after `k` steps, and not before. -/
theorem countdown {k m : Nat} (hk : k < 2 ^ 32) (hm : m < k) :
    BitVec.ofNat 32 (k - m) - 1 = BitVec.ofNat 32 (k - (m + 1)) ∧
      (BitVec.ofNat 32 (k - (m + 1)) != 0#32) = decide (m + 1 < k) := by
  refine ⟨?_, ?_⟩
  · rw [Nat.sub_add_eq, ← ofNat_sub_ofNat (m := k - m) (n := 1) (by omega)]
    rfl
  · rw [Bool.eq_iff_iff, bne_iff_ne, decide_eq_true_iff, Ne, ← BitVec.toNat_inj,
      toNat_ofNat_of_lt (by omega)]
    simp
    omega

section Ends

variable {uWidth uHeight : BitVec 32}

/-- **A line** is painted from end to end. -/
theorem mmxLine_total {s : MmxRow} (hw : uWidth.toNat % 16 = 0) (hpos : 0 < uWidth.toNat)
    (hfuel : uWidth.toNat ≤ fuel) (hs : s.At mRgb rs ys uWidth.toNat i 0)
    (hedx : s.edx = uWidth / 16) :
    ∃ t, mmxLine fuel mRgb (rs - uWidth * 4) (ys - uWidth) (uWidth / 16) s = some t ∧
      t.At mRgb rs ys uWidth.toNat (i + 1) 0 ∧ t.edx = uWidth / 16 ∧ t.ecx = s.ecx - 1 := by
  have hlt := uWidth.isLt
  have hcount : uWidth / 16 = BitVec.ofNat 32 (uWidth.toNat / 16 - 0) := by
    rw [← BitVec.toNat_inj, BitVec.toNat_udiv, toNat_ofNat_of_lt (by omega)]
    rfl
  obtain ⟨t, ht, hat, hecx, -⟩ := doWhile_count
    (fun s => some (sixteenPixels mRgb s)) (fun s => s.edx != 0#32)
    (fun m (t : MmxRow) => t.At mRgb rs ys uWidth.toNat i (16 * m) ∧ t.ecx = s.ecx ∧
      t.edx = BitVec.ofNat 32 (uWidth.toNat / 16 - m))
    (by
      rintro m s hm ⟨hat, hecx, hedx⟩
      obtain ⟨hnext, hagain⟩ := countdown (k := uWidth.toNat / 16) (by omega) hm
      have hstep : (sixteenPixels mRgb s).edx = BitVec.ofNat 32 (uWidth.toNat / 16 - (m + 1)) := by
        show s.edx - 1 = _
        rw [hedx, hnext]
      have hsixteen := hat.eightPixels.eightPixels
      refine ⟨_, rfl, ⟨?_, hecx, hstep⟩, ?_⟩
      · rw [Nat.mul_add_one]
        exact ⟨hsixteen.1, hsixteen.2, hsixteen.3, hsixteen.4, hsixteen.5, hsixteen.6⟩
      · rw [hstep, hagain])
    0 s fuel (k := uWidth.toNat / 16) (by omega) (by omega) ⟨hs, rfl, hedx.trans hcount⟩
  have hwidth : 16 * (uWidth.toNat / 16) = uWidth.toNat := by omega
  rw [hwidth] at hat
  refine ⟨_, congrArg (Option.map _) ht, ⟨?_, ?_, ?_, ?_, hat.room, hat.stores.next⟩, rfl, ?_⟩
  · exact (congrArg (· + (rs - uWidth * 4)) hat.esi).trans place_rgbOffset
  · exact (congrArg (· + (ys - uWidth)) hat.edi).trans place_yuvOffset
  · exact (congrArg (· + (ys - uWidth)) hat.eax).trans place_yuvOffset
  · exact (congrArg (· + (ys - uWidth)) hat.ebx).trans place_yuvOffset
  · show t.ecx - 1 = _
    rw [hecx]

/-- **The assembly** paints all three planes, and no lane overflows. -/
theorem BGRA32ToYUV444_SSE_total (mRgb : Plane) (rs ys : BitVec 32) {mmx : Mmx}
    (hw : uWidth.toNat % 16 = 0) (hpos : 0 < uWidth.toNat)
    (hh : 0 < uHeight.toNat) (hroom : mmx.room = true) (hfuel : uWidth.toNat ≤ fuel)
    (hfuelh : uHeight.toNat ≤ fuel) :
    ∃ t, BGRA32ToYUV444_SSE fuel mmx mRgb rs ys uWidth uHeight = some t ∧ t.2.room = true ∧
      t.1.UpTo sseY sseU sseV mRgb rs ys uWidth.toNat uHeight.toNat 0 := by
  have hblocks : ¬ (uWidth % 16 ≠ 0 ∨ uWidth = 0) := by
    rw [not_or, not_not, ← BitVec.toNat_inj, ← BitVec.toNat_inj, BitVec.toNat_umod]
    exact ⟨hw, Nat.ne_of_gt hpos⟩
  obtain ⟨t, ht, hat, -, -⟩ := doWhile_count
    (mmxLine fuel mRgb (rs - uWidth * 4) (ys - uWidth) (uWidth / 16))
    (fun s => s.ecx != 0#32)
    (fun i (s : MmxRow) => s.At mRgb rs ys uWidth.toNat i 0 ∧ s.edx = uWidth / 16 ∧
      s.ecx = BitVec.ofNat 32 (uHeight.toNat - i))
    (by
      rintro i s hi ⟨hat, hedx, hecx⟩
      obtain ⟨hnext, hagain⟩ := countdown uHeight.isLt hi
      obtain ⟨t, ht, hline, htedx, htecx⟩ := mmxLine_total hw hpos hfuel hat hedx
      rw [hecx, hnext] at htecx
      exact ⟨t, ht, ⟨hline, htedx, htecx⟩, by rw [htecx, hagain]⟩)
    0 ⟨0, 0, 0, 0, uHeight, uWidth / 16, mmx, ⟨[], [], []⟩⟩ fuel hh (by omega)
    ⟨⟨place_zero.symm, place_zero.symm, place_zero.symm, place_zero.symm, hroom, YuvStores.upTo_zero⟩,
      rfl, by simp⟩
  unfold BGRA32ToYUV444_SSE
  rw [if_neg hblocks]
  exact ⟨_, congrArg (Option.map _) ht, hat.room, hat.stores⟩

/-- The assembly goes over a line before it looks at `uHeight`. -/
theorem BGRA32ToYUV444_SSE_stores (mRgb : Plane) (rs ys uHeight : BitVec 32) (mmx : Mmx)
    (hw : uWidth % 16 = 0) (hpos : uWidth ≠ 0) {t : YuvStores × Mmx}
    (ht : BGRA32ToYUV444_SSE fuel mmx mRgb rs ys uWidth uHeight = some t) : t.1.y ≠ [] := by
  have hline : ∀ s t, mmxLine fuel mRgb (rs - uWidth * 4) (ys - uWidth) (uWidth / 16) s = some t →
      t.stores.y ≠ [] := by
    intro s t hline
    obtain ⟨u, hu, rfl⟩ := Option.map_eq_some_iff.mp hline
    refine doWhile_post _ _ (fun u : MmxRow => u.stores.y ≠ []) ?_ _ _ u hu
    rintro s t ht
    rw [← Option.some.inj ht]
    refine List.append_ne_nil_of_right_ne_nil _ fun hnil => ?_
    exact absurd (congrArg List.length hnil) (by rw [storeLanes, List.length_ofFn]; decide)
  unfold BGRA32ToYUV444_SSE at ht
  rw [if_neg (not_or.mpr ⟨not_not.mpr hw, hpos⟩)] at ht
  obtain ⟨u, hu, rfl⟩ := Option.map_eq_some_iff.mp ht
  exact doWhile_post _ _ (fun u : MmxRow => u.stores.y ≠ []) hline _ _ u hu

end Ends

end Loops

/-! ## Agreement -/

/-- `b` is `a`, or one more. -/
def AtMostOneMore (a b : BitVec 8) : Prop := a.toNat ≤ b.toNat ∧ b.toNat ≤ a.toNat + 1

theorem atMostOneMore_ofInt {x y : Int} (hx : 0 ≤ x) (hxy : x ≤ y ∧ y ≤ x + 1) (hy : y < 256) :
    AtMostOneMore (BitVec.ofInt 8 x) (BitVec.ofInt 8 y) := by
  unfold AtMostOneMore
  rw [BitVec.toNat_ofInt, BitVec.toNat_ofInt]
  omega

/-- The scalar converter rounds down once, the assembly every product by itself and then their
sum. -/
theorem rounded_sum {s t : Int} (hle : 256 * s ≤ t) (hlt : t ≤ 256 * s + 65535) :
    s / 256 ≤ t >>> (16 : Nat) ∧ t >>> (16 : Nat) ≤ s / 256 + 1 := by
  have hshift : t >>> (16 : Nat) = t / 65536 := Int.shiftRight_eq_div_pow t 16
  rw [hshift]
  omega

/-- Where the products are subtracted, it is the other way round. -/
theorem rounded_difference {s t : Int} (hle : t ≤ 256 * s + 8388608)
    (hlt : 256 * s + 8388608 ≤ t + 65535) :
    t >>> (16 : Nat) ≤ s / 256 + 128 ∧ s / 256 + 128 ≤ t >>> (16 : Nat) + 1 := by
  have hshift : t >>> (16 : Nat) = t / 65536 := Int.shiftRight_eq_div_pow t 16
  rw [hshift]
  omega

theorem sseY_le_scalarY (iR iG iB : BitVec 8) :
    AtMostOneMore (sseY iR iG iB) (scalarY iR iG iB) := by
  have hnear := rounded_sum (t := 19595 * iR.toNat + 38470 * iG.toNat + 7471 * iB.toNat + 32768)
    (s := iR.toNat * 19595 / 256 + iG.toNat * 38470 / 256 + iB.toNat * 7471 / 256 + 128) (by omega) (by omega)
  unfold sseY scalarY
  rw [← BitVec.ofInt_natCast]
  refine atMostOneMore_ofInt (by omega) ?_ ?_
  · push_cast
    exact hnear
  · rw [Int.shiftRight_eq_div_pow]
    omega

theorem scalarU_le_sseU (iR iG iB : BitVec 8) :
    AtMostOneMore (scalarU iR iG iB) (sseU iR iG iB) := by
  have hnear := rounded_difference
    (t := -11056 * iR.toNat - 21712 * iG.toNat + 32768 * iB.toNat + 8388608)
    (s := iB.toNat * 32768 / 256 - iR.toNat * 11056 / 256 - iG.toNat * 21712 / 256) (by omega) (by omega)
  refine atMostOneMore_ofInt ?_ hnear (by omega)
  rw [Int.shiftRight_eq_div_pow]
  omega

theorem scalarV_le_sseV (iR iG iB : BitVec 8) :
    AtMostOneMore (scalarV iR iG iB) (sseV iR iG iB) := by
  have hnear := rounded_difference
    (t := 32768 * iR.toNat - 27440 * iG.toNat - 5328 * iB.toNat + 8388608)
    (s := iR.toNat * 32768 / 256 - iG.toNat * 27440 / 256 - iB.toNat * 5328 / 256) (by omega) (by omega)
  refine atMostOneMore_ofInt ?_ hnear (by omega)
  rw [Int.shiftRight_eq_div_pow]
  omega

/-- Both have stored the same rectangle and nothing else, and `near` holds of the values. -/
def PlaneAgrees (near : BitVec 8 → BitVec 8 → Prop) (uYuvStride uWidth uHeight : BitVec 32)
    (sse scalar : Stores) : Prop :=
  (∀ a, lastWrite sse a ≠ none ↔ Within uYuvStride uWidth.toNat uHeight.toNat a) ∧
    (∀ a, lastWrite scalar a ≠ none ↔ Within uYuvStride uWidth.toNat uHeight.toNat a) ∧
    ∀ i < uHeight.toNat, ∀ j < uWidth.toNat, ∃ a b, lastWrite sse (place uYuvStride i j) = some a ∧
      lastWrite scalar (place uYuvStride i j) = some b ∧ near a b

section Agreement

variable {mRgb : Plane} {rs ys uWidth uHeight : BitVec 32}

theorem planeAgrees_of_paints {near : BitVec 8 → BitVec 8 → Prop}
    {f g : BitVec 8 → BitVec 8 → BitVec 8 → BitVec 8} {sse scalar : Stores}
    (hnear : ∀ iR iG iB, near (f iR iG iB) (g iR iG iB))
    (hfits : Fits ys uWidth.toNat uHeight.toNat)
    (hsse : Paints ys (plane f mRgb rs) (Scanned 1 uWidth.toNat uHeight.toNat 0) sse)
    (hscalar : Paints ys (plane g mRgb rs) (Scanned 1 uWidth.toNat uHeight.toNat 0) scalar) :
    PlaneAgrees near ys uWidth uHeight sse scalar := by
  have hall (i x : Nat) : Scanned 1 uWidth.toNat uHeight.toNat 0 i x ↔
      i < uHeight.toNat ∧ x < uWidth.toNat := by
    rw [scanned_all, Nat.one_mul]
  have hsse' := hsse.congr hall
  have hscalar' := hscalar.congr hall
  refine ⟨hsse'.lastWrite_ne_none_iff, hscalar'.lastWrite_ne_none_iff, ?_⟩
  intro i hi j hj
  exact ⟨_, _, hsse'.lastWrite_eq hfits hi hj, hscalar'.lastWrite_eq hfits hi hj, hnear _ _ _⟩

end Agreement

/-- **The MMX converter agrees with the scalar one**, plane by plane, and no lane overflows. -/
theorem BGRA32ToYUV444_SSE_agrees (mRgb : Plane) (uRgbStride uYuvStride uWidth uHeight : BitVec 32)
    (hw : uWidth.toNat % 16 = 0) (hpos : 0 < uWidth.toNat) (hh : 0 < uHeight.toNat)
    (hfits : Fits uYuvStride uWidth.toNat uHeight.toNat) (mmx : Mmx) (hroom : mmx.room = true)
    (fuel : Nat) (hfuel : uWidth.toNat ≤ fuel) (hfuelh : uHeight.toNat ≤ fuel) :
    ∃ t, BGRA32ToYUV444_SSE fuel mmx mRgb uRgbStride uYuvStride uWidth uHeight = some t ∧
      t.2.room = true ∧
      PlaneAgrees AtMostOneMore uYuvStride uWidth uHeight t.1.y
        (BGRA32ToYUV444 mRgb uRgbStride uYuvStride uWidth uHeight).y ∧
      PlaneAgrees (fun sse scalar => AtMostOneMore scalar sse) uYuvStride uWidth uHeight t.1.u
        (BGRA32ToYUV444 mRgb uRgbStride uYuvStride uWidth uHeight).u ∧
      PlaneAgrees (fun sse scalar => AtMostOneMore scalar sse) uYuvStride uWidth uHeight t.1.v
        (BGRA32ToYUV444 mRgb uRgbStride uYuvStride uWidth uHeight).v := by
  obtain ⟨t, ht, htroom, hsse⟩ := BGRA32ToYUV444_SSE_total mRgb uRgbStride uYuvStride hw hpos hh
    hroom hfuel hfuelh
  have hscalar := upTo_BGRA32ToYUV444 mRgb uRgbStride uYuvStride uWidth uHeight
  exact ⟨t, ht, htroom, planeAgrees_of_paints sseY_le_scalarY hfits hsse.y hscalar.y,
    planeAgrees_of_paints scalarU_le_sseU hfits hsse.u hscalar.u,
    planeAgrees_of_paints scalarV_le_sseV hfits hsse.v hscalar.v⟩

/-- A unit whose registers are zero. -/
def clearedMmx : Mmx :=
  ⟨fun _ => 0, fun _ => 0, fun _ => 0, fun _ => 0, fun _ => 0, fun _ => 0, fun _ => 0, fun _ => 0, true⟩

theorem BGRA32ToYUV444_SSE_agrees_grey : ∃ t,
    BGRA32ToYUV444_SSE 32 clearedMmx (fun _ => 90) 128 32 32 2 = some t ∧ t.2.room = true ∧
      PlaneAgrees AtMostOneMore 32 32 2 t.1.y (BGRA32ToYUV444 (fun _ => 90) 128 32 32 2).y ∧
      PlaneAgrees (fun sse scalar => AtMostOneMore scalar sse) 32 32 2 t.1.u
        (BGRA32ToYUV444 (fun _ => 90) 128 32 32 2).u ∧
      PlaneAgrees (fun sse scalar => AtMostOneMore scalar sse) 32 32 2 t.1.v
        (BGRA32ToYUV444 (fun _ => 90) 128 32 32 2).v :=
  BGRA32ToYUV444_SSE_agrees (fun _ => 90) 128 32 32 2 (by decide) (by decide) (by decide) (by decide)
    clearedMmx rfl 32 (by decide) (by decide)

end TiraRdp.ImageProcess
