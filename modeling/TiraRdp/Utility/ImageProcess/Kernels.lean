import Mathlib.Tactic.Linarith
import TiraRdp.Lib.Simd
import TiraRdp.Utility.ImageProcess.YuvToRgb

/-!
# `ImageProcess`: the SSE kernels from YUV to RGB

The kernels that `YUV420ToBGRA32_SSE` and `NV12ToBGRA32_SSE` are made of
(`common/utility/include/ImageProcess.h:188-327`). An `__m128i` is sixteen bytes, the lowest first;
an intrinsic has its own name here, and its meaning is that of `Lib.Simd`.

Results:
* `upsampleColour_eq`: a lane of a colour is `Y` and a shifted sum of two products, with nothing
  lost.
* `convertLine_eq`: the sixteen pixels of a line are stored one after the other, each as `ssePixel`
  has it, two to a chroma pair.
* `ssePixel_near`: a colour is what the scalar converters compute, or one less.
-/

namespace TiraRdp.ImageProcess

open Lib Lib.Raster Lib.Simd

/-- `__m128i`, as bytes. -/
abbrev M128i := Lanes 16 8

namespace M128i

def epi16 (a : M128i) : Lanes 8 16 := pairs (n := 8) a

def ofEpi16 (a : Lanes 8 16) : M128i := halves (n := 8) (w := 8) a

def epi32 (a : M128i) : Lanes 4 32 := pairs (n := 4) a.epi16

def ofEpi32 (a : Lanes 4 32) : M128i := ofEpi16 (halves (n := 4) (w := 16) a)

end M128i

/-! ## The intrinsics -/

def mm_setzero_si128 : M128i := fun _ => 0

def mm_loadu_si128 (m : Plane) (p : BitVec 32) : M128i := fun i => m (p + BitVec.ofNat 32 i)

def mm_storeu_si128 (p : BitVec 32) (a : M128i) : Stores :=
  List.ofFn fun i : Fin 16 => (p + BitVec.ofNat 32 i, a i)

def mm_unpacklo_epi8 (a b : M128i) : M128i := unpackLo a b

def mm_unpackhi_epi8 (a b : M128i) : M128i := unpackHi a b

def mm_unpacklo_epi16 (a b : M128i) : M128i := .ofEpi16 (unpackLo a.epi16 b.epi16)

def mm_unpackhi_epi16 (a b : M128i) : M128i := .ofEpi16 (unpackHi a.epi16 b.epi16)

def mm_add_epi16 (a b : M128i) : M128i := .ofEpi16 fun i => a.epi16 i + b.epi16 i

def mm_madd_epi16 (a b : M128i) : M128i := .ofEpi32 (madd (n := 4) a.epi16 b.epi16)

def mm_srai_epi32 (a : M128i) (k : Nat) : M128i := .ofEpi32 fun i => (a.epi32 i).sshiftRight k

def mm_shuffle_epi8 (a mask : M128i) : M128i := shuffle a mask

def mm_packus_epi16 (a b : M128i) : M128i := packUnsigned (n := 8) (w := 8) a.epi16 b.epi16

/-- `M128I(var, val64_1, val64_2)`. -/
def M128I (val64_1 val64_2 : BitVec 64) : M128i := fun i =>
  if i.val < 8 then val64_1.extractLsb' (8 * i) 8 else val64_2.extractLsb' (8 * (i - 8)) 8

/-! ## The kernels -/

def unpack_yuv42Xp_to_2_y_vectors_sse2 (y : M128i) : M128i × M128i :=
  (mm_unpacklo_epi8 y mm_setzero_si128, mm_unpackhi_epi8 y mm_setzero_si128)

def unpack_low_yuv42Xp_to_uv_vector_sse2 (u v : M128i) : M128i × M128i :=
  let scratch := mm_unpacklo_epi8 u v
  (mm_unpacklo_epi8 scratch mm_setzero_si128, mm_unpackhi_epi8 scratch mm_setzero_si128)

def unpack_high_yuv42Xp_to_uv_vector_sse2 (u v : M128i) : M128i × M128i :=
  let scratch := mm_unpackhi_epi8 u v
  (mm_unpacklo_epi8 scratch mm_setzero_si128, mm_unpackhi_epi8 scratch mm_setzero_si128)

def unpack_nv12_to_uv_vector_sse2 (aligned_uv : M128i) : M128i × M128i :=
  (mm_unpacklo_epi8 aligned_uv mm_setzero_si128, mm_unpackhi_epi8 aligned_uv mm_setzero_si128)

def shuffMask : M128i := M128I 0x0504050401000100 0x0D0C0D0C09080908

def sub128 : M128i := M128I 0xFF80FF80FF80FF80 0xFF80FF80FF80FF80

def sub16 : M128i := M128I 0 0

def uvRCoeffs : M128i := M128I 0x00B3000000B30000 0x00B3000000B30000

def uvGCoeffs : M128i := M128I 0xFFA5FFD4FFA5FFD4 0xFFA5FFD4FFA5FFD4

def uvBCoeffs : M128i := M128I 0x000000E3000000E3 0x000000E3000000E3

/-- A colour of `nnb_upsample_n_convert_y_uv_vectors_to_rgb_vectors_bt601_sse2_ssse3`: the same for
all three but for the coefficients. -/
def upsampleColour (coeffs y uv : M128i) : M128i :=
  let chroma := mm_srai_epi32 (mm_madd_epi16 (mm_add_epi16 uv sub128) coeffs) 7
  mm_add_epi16 (mm_add_epi16 y sub16) (mm_shuffle_epi8 chroma shuffMask)

/-- Red, green and blue of eight pixels. -/
structure RgbVectors where
  r : M128i
  g : M128i
  b : M128i

def nnb_upsample_n_convert_y_uv_vectors_to_rgb_vectors_bt601_sse2_ssse3 (y uv : M128i) :
    RgbVectors where
  r := upsampleColour uvRCoeffs y uv
  g := upsampleColour uvGCoeffs y uv
  b := upsampleColour uvBCoeffs y uv

/-- Stored at `out`, sixteen bytes after sixteen bytes. -/
def pack_6_rgb_vectors_in_4_bgra_vectors_sse2 (rgb1 rgb2 : RgbVectors) (out : BitVec 32) : Stores :=
  let rPacked := mm_packus_epi16 rgb1.r rgb2.r
  let gPacked := mm_packus_epi16 rgb1.g rgb2.g
  let bPacked := mm_packus_epi16 rgb1.b rgb2.b
  let bg := mm_unpacklo_epi8 bPacked gPacked
  let ra := mm_unpacklo_epi8 rPacked mm_setzero_si128
  let bgHi := mm_unpackhi_epi8 bPacked gPacked
  let raHi := mm_unpackhi_epi8 rPacked mm_setzero_si128
  mm_storeu_si128 out (mm_unpacklo_epi16 bg ra) ++
    mm_storeu_si128 (out + 16) (mm_unpackhi_epi16 bg ra) ++
    mm_storeu_si128 (out + 32) (mm_unpacklo_epi16 bgHi raHi) ++
    mm_storeu_si128 (out + 48) (mm_unpackhi_epi16 bgHi raHi)

/-- Sixteen pixels of a line. -/
def convertLine (mY : Plane) (uv : M128i × M128i) (y out : BitVec 32) : Stores :=
  let unpack_out := unpack_yuv42Xp_to_2_y_vectors_sse2 (mm_loadu_si128 mY y)
  pack_6_rgb_vectors_in_4_bgra_vectors_sse2
    (nnb_upsample_n_convert_y_uv_vectors_to_rgb_vectors_bt601_sse2_ssse3 unpack_out.1 uv.1)
    (nnb_upsample_n_convert_y_uv_vectors_to_rgb_vectors_bt601_sse2_ssse3 unpack_out.2 uv.2) out

/-! ## What the kernels compute -/

/-- The bytes of a pixel, with coefficients of seven bits. -/
def ssePixel (iY iU iV : BitVec 8) : Nat → BitVec 8
  | 0 => clamp (iY.toNat + (227 * (iU.toNat - 128) : Int) >>> (7 : Nat))
  | 1 => clamp (iY.toNat + (-44 * (iU.toNat - 128) - 91 * (iV.toNat - 128) : Int) >>> (7 : Nat))
  | 2 => clamp (iY.toNat + (179 * (iV.toNat - 128) : Int) >>> (7 : Nat))
  | _ => 0
where
  clamp (x : Int) : BitVec 8 := BitVec.ofInt 8 (max 0 (min x 255))

section Kernels

theorem epi16_ofEpi16 (a : Lanes 8 16) : (M128i.ofEpi16 a).epi16 = a :=
  pairs_halves (n := 8) (w := 8) a

theorem epi32_ofEpi32 (a : Lanes 4 32) : (M128i.ofEpi32 a).epi32 = a := by
  unfold M128i.ofEpi32 M128i.epi32
  rw [epi16_ofEpi16]
  exact pairs_halves (n := 4) (w := 16) a

/-- A byte as a lane of sixteen bits. -/
theorem epi16_unpacklo_zero (a : M128i) (i : Fin 8) :
    (mm_unpacklo_epi8 a mm_setzero_si128).epi16 i = BitVec.ofInt 16 (a ⟨i, by omega⟩).toNat := by
  rw [← zero_append_eq_ofInt (w := 8)]
  exact pairs_unpackLo (n := 8) a mm_setzero_si128 i

theorem epi16_unpackhi_zero (a : M128i) (i : Fin 8) :
    (mm_unpackhi_epi8 a mm_setzero_si128).epi16 i =
      BitVec.ofInt 16 (a ⟨8 + i, by omega⟩).toNat := by
  rw [← zero_append_eq_ofInt (w := 8)]
  exact pairs_unpackHi (n := 8) a mm_setzero_si128 i

/-- The mask gives the lower half of a sum to both pixels that it is for. -/
theorem epi16_shuffMask (a : M128i) (i : Fin 8) :
    (mm_shuffle_epi8 a shuffMask).epi16 i = (a.epi32 ⟨i / 2, by omega⟩).setWidth 16 := by
  have hmask : ∀ i : Fin 8, (shuffMask ⟨2 * i, by omega⟩).msb = false ∧
      (shuffMask ⟨2 * i, by omega⟩).toNat % 16 = 2 * (2 * (i / 2)) ∧
      (shuffMask ⟨2 * i + 1, by omega⟩).msb = false ∧
      (shuffMask ⟨2 * i + 1, by omega⟩).toNat % 16 = 2 * (2 * (i / 2)) + 1 := by decide
  obtain ⟨hlo, hloAt, hhi, hhiAt⟩ := hmask i
  have hhalf : (a.epi32 ⟨i / 2, by omega⟩).setWidth 16 = a.epi16 ⟨2 * (i / 2), by omega⟩ :=
    BitVec.setWidth_append_eq_right
  rw [hhalf]
  show mm_shuffle_epi8 a shuffMask ⟨2 * i + 1, by omega⟩ ++ mm_shuffle_epi8 a shuffMask ⟨2 * i, by omega⟩ =
    a ⟨2 * (2 * (i / 2)) + 1, by omega⟩ ++ a ⟨2 * (2 * (i / 2)), by omega⟩
  simp only [mm_shuffle_epi8, shuffle, hlo, hloAt, hhi, hhiAt, Bool.false_eq_true, if_false]

theorem sub128_eq (i : Fin 8) : sub128.epi16 i = BitVec.ofInt 16 (-128) := by
  revert i
  decide

theorem sub16_eq (i : Fin 8) : sub16.epi16 i = BitVec.ofInt 16 0 := by
  revert i
  decide

theorem uvRCoeffs_eq (k : Fin 4) : uvRCoeffs.epi16 ⟨2 * k, by omega⟩ = BitVec.ofInt 16 0 ∧
    uvRCoeffs.epi16 ⟨2 * k + 1, by omega⟩ = BitVec.ofInt 16 179 := by
  revert k
  decide

theorem uvGCoeffs_eq (k : Fin 4) : uvGCoeffs.epi16 ⟨2 * k, by omega⟩ = BitVec.ofInt 16 (-44) ∧
    uvGCoeffs.epi16 ⟨2 * k + 1, by omega⟩ = BitVec.ofInt 16 (-91) := by
  revert k
  decide

theorem uvBCoeffs_eq (k : Fin 4) : uvBCoeffs.epi16 ⟨2 * k, by omega⟩ = BitVec.ofInt 16 227 ∧
    uvBCoeffs.epi16 ⟨2 * k + 1, by omega⟩ = BitVec.ofInt 16 0 := by
  revert k
  decide

/-- The chroma of eight pixels: `U` and `V` of four pairs. -/
def ChromaLanes (uv : M128i) (chroma : Nat → BitVec 8 × BitVec 8) : Prop :=
  ∀ k : Fin 4, uv.epi16 ⟨2 * k, by omega⟩ = BitVec.ofInt 16 (chroma k).1.toNat ∧
    uv.epi16 ⟨2 * k + 1, by omega⟩ = BitVec.ofInt 16 (chroma k).2.toNat

theorem mul_inRange {c x : Int} (hx : -128 ≤ x ∧ x ≤ 127) (hc : -256 ≤ c ∧ c ≤ 255) :
    -32768 ≤ c * x ∧ c * x ≤ 32768 := by
  constructor <;> nlinarith

/-- **A lane of a colour**: the sum of products is exact, and so is what is added to `Y`. -/
theorem upsampleColour_eq {coeffs y uv : M128i} {c0 c1 : Int} {chroma : Nat → BitVec 8 × BitVec 8}
    {iY : BitVec 8} {i : Fin 8} (hy : y.epi16 i = BitVec.ofInt 16 iY.toNat)
    (huv : ChromaLanes uv chroma)
    (hcoeffs : ∀ k : Fin 4, coeffs.epi16 ⟨2 * k, by omega⟩ = BitVec.ofInt 16 c0 ∧
      coeffs.epi16 ⟨2 * k + 1, by omega⟩ = BitVec.ofInt 16 c1)
    (hc0 : -256 ≤ c0 ∧ c0 ≤ 255) (hc1 : -256 ≤ c1 ∧ c1 ≤ 255) :
    (upsampleColour coeffs y uv).epi16 i = BitVec.ofInt 16 (iY.toNat +
      (c0 * ((chroma (i / 2)).1.toNat - 128) + c1 * ((chroma (i / 2)).2.toNat - 128)) >>> (7 : Nat)) := by
  obtain ⟨hu, hv⟩ := huv ⟨i / 2, by omega⟩
  obtain ⟨hcu, hcv⟩ := hcoeffs ⟨i / 2, by omega⟩
  have hult := (chroma (i / 2)).1.isLt
  have hvlt := (chroma (i / 2)).2.isLt
  obtain ⟨u, hu128⟩ : ∃ u : Int, ((chroma (i / 2)).1.toNat : Int) - 128 = u := ⟨_, rfl⟩
  obtain ⟨v, hv128⟩ : ∃ v : Int, ((chroma (i / 2)).2.toNat : Int) - 128 = v := ⟨_, rfl⟩
  have hcu0 := mul_inRange (x := u) (by omega) hc0
  have hcv1 := mul_inRange (x := v) (by omega) hc1
  -- the chroma lanes less 128, and the coefficients, as signed numbers
  have hsub (j : Nat) (hj : j < 8) (c : BitVec 8) (x : Int) (hx : (c.toNat : Int) - 128 = x)
      (hc : uv.epi16 ⟨j, hj⟩ = BitVec.ofInt 16 c.toNat) :
      ((mm_add_epi16 uv sub128).epi16 ⟨j, hj⟩).signExtend 32 = BitVec.ofInt 32 x := by
    have hlt := c.isLt
    rw [mm_add_epi16, epi16_ofEpi16, hc, sub128_eq, ← BitVec.ofInt_add]
    rw [signExtend_ofInt (by decide) (by unfold InRange; omega), ← hx]
    rfl
  have hsum : (mm_madd_epi16 (mm_add_epi16 uv sub128) coeffs).epi32 ⟨i / 2, by omega⟩ =
      BitVec.ofInt 32 (c0 * u + c1 * v) := by
    rw [mm_madd_epi16, epi32_ofEpi32]
    show ((mm_add_epi16 uv sub128).epi16 ⟨2 * (i / 2), by omega⟩).signExtend 32 *
        (coeffs.epi16 ⟨2 * (i / 2), by omega⟩).signExtend 32 +
      ((mm_add_epi16 uv sub128).epi16 ⟨2 * (i / 2) + 1, by omega⟩).signExtend 32 *
        (coeffs.epi16 ⟨2 * (i / 2) + 1, by omega⟩).signExtend 32 = _
    rw [hsub _ _ _ _ hu128 hu, hsub _ _ _ _ hv128 hv, hcu, hcv,
      signExtend_ofInt (by decide) (by unfold InRange; omega),
      signExtend_ofInt (by decide) (by unfold InRange; omega), ← BitVec.ofInt_mul, ← BitVec.ofInt_mul,
      ← BitVec.ofInt_add, Int.mul_comm u, Int.mul_comm v]
  rw [hu128, hv128, upsampleColour, mm_add_epi16, epi16_ofEpi16, epi16_shuffMask, mm_srai_epi32,
    epi32_ofEpi32, hsum, sshiftRight_ofInt (by decide) (by unfold InRange; omega),
    setWidth_ofInt (by decide), mm_add_epi16, epi16_ofEpi16, hy, sub16_eq, ← BitVec.ofInt_add,
    ← BitVec.ofInt_add, Int.add_zero]

/-- A colour of sixteen pixels, packed. -/
theorem packed_eq {coeffs : M128i} {c0 c1 : Int} {chroma : Nat → BitVec 8 × BitVec 8}
    {uv : M128i × M128i}
    (y : M128i) (hlo : ChromaLanes uv.1 chroma) (hhi : ChromaLanes uv.2 fun k => chroma (4 + k))
    (hcoeffs : ∀ k : Fin 4, coeffs.epi16 ⟨2 * k, by omega⟩ = BitVec.ofInt 16 c0 ∧
      coeffs.epi16 ⟨2 * k + 1, by omega⟩ = BitVec.ofInt 16 c1)
    (hc0 : -256 ≤ c0 ∧ c0 ≤ 255) (hc1 : -256 ≤ c1 ∧ c1 ≤ 255) (t : Fin 16) :
    mm_packus_epi16 (upsampleColour coeffs (unpack_yuv42Xp_to_2_y_vectors_sse2 y).1 uv.1)
        (upsampleColour coeffs (unpack_yuv42Xp_to_2_y_vectors_sse2 y).2 uv.2) t =
      ssePixel.clamp ((y t).toNat +
        (c0 * ((chroma (t / 2)).1.toNat - 128) + c1 * ((chroma (t / 2)).2.toNat - 128)) >>> (7 : Nat)) := by
  have hfits (iY iU iV : BitVec 8) :
      InRange 16 (iY.toNat + (c0 * (iU.toNat - 128) + c1 * (iV.toNat - 128)) >>> (7 : Nat)) := by
    have hy := iY.isLt
    have hu := iU.isLt
    have hv := iV.isLt
    have hu0 := mul_inRange (x := iU.toNat - 128) (by omega) hc0
    have hv1 := mul_inRange (x := iV.toNat - 128) (by omega) hc1
    rw [Int.shiftRight_eq_div_pow]
    unfold InRange
    omega
  unfold mm_packus_epi16 packUnsigned unpack_yuv42Xp_to_2_y_vectors_sse2
  dsimp only
  split_ifs with ht
  · rw [upsampleColour_eq (epi16_unpacklo_zero y ⟨t, ht⟩) hlo hcoeffs hc0 hc1]
    exact saturate_ofInt (by decide) (hfits _ _ _)
  · have hpair : 4 + (t.val - 8) / 2 = t / 2 := by omega
    have hlane : 8 + (t.val - 8) = t := by omega
    rw [upsampleColour_eq (epi16_unpackhi_zero y ⟨t - 8, by omega⟩) hhi hcoeffs hc0 hc1]
    simp only [hpair, hlane]
    exact saturate_ofInt (by decide) (hfits _ _ _)

theorem storeu_eq {p : BitVec 32} {a : M128i} {f : Nat → BitVec 8} (h : ∀ i : Fin 16, a i = f i) :
    mm_storeu_si128 p a = block p 16 f := by
  unfold mm_storeu_si128 block
  rw [← List.map_coe_finRange_eq_range, List.map_map, List.ofFn_eq_map]
  refine List.map_congr_left fun i _ => ?_
  simp only [h, Function.comp_apply]

/-- Blue, green, red and zero, pixel by pixel. -/
def bgra (b g r : Nat → BitVec 8) (x : Nat) : BitVec 8 :=
  match x % 4 with
  | 0 => b (x / 4)
  | 1 => g (x / 4)
  | 2 => r (x / 4)
  | _ => 0

/-- A byte of the interleaved words, from the interleaved bytes at `k`. -/
theorem bgra_interleaved {b g r : Nat → BitVec 8} {bg ra : M128i} {q : Nat} (i k : Fin 16)
    (hbg : bg k = if i.val % 2 = 0 then b (q + i / 4) else g (q + i / 4))
    (hra : ra k = if i.val % 2 = 0 then r (q + i / 4) else 0) :
    (if i.val / 2 % 2 = 0 then bg k else ra k) = bgra b g r (4 * q + i) := by
  have hpixel : (4 * q + i.val) / 4 = q + i / 4 := by omega
  have hbyte : (4 * q + i.val) % 4 = i % 4 := by omega
  unfold bgra
  rw [hbg, hra, hpixel, hbyte]
  have hcases : i.val % 4 = 0 ∨ i.val % 4 = 1 ∨ i.val % 4 = 2 ∨ i.val % 4 = 3 := by omega
  rcases hcases with h | h | h | h
  · rw [if_pos (by omega), if_pos (by omega), h]
    rfl
  · rw [if_pos (by omega), if_neg (by omega), h]
    rfl
  · rw [if_neg (by omega), if_pos (by omega), h]
    rfl
  · rw [if_neg (by omega), if_neg (by omega), h]
    rfl

/-- **The packed pixels** are stored one after the other. -/
theorem pack_eq {rgb1 rgb2 : RgbVectors} {b g r : Nat → BitVec 8} (out : BitVec 32)
    (hb : ∀ t : Fin 16, mm_packus_epi16 rgb1.b rgb2.b t = b t)
    (hg : ∀ t : Fin 16, mm_packus_epi16 rgb1.g rgb2.g t = g t)
    (hr : ∀ t : Fin 16, mm_packus_epi16 rgb1.r rgb2.r t = r t) :
    pack_6_rgb_vectors_in_4_bgra_vectors_sse2 rgb1 rgb2 out = block out 64 (bgra b g r) := by
  have hlo (a c : M128i) (f h : Nat → BitVec 8) (ha : ∀ t : Fin 16, a t = f t)
      (hc : ∀ t : Fin 16, c t = h t) (k : Fin 16) (p e : Nat) (hp : k.val / 2 = p) (he : k.val % 2 = e) :
      mm_unpacklo_epi8 a c k = if e = 0 then f p else h p := by
    unfold mm_unpacklo_epi8 unpackLo
    rw [ha, hc, he]
    dsimp only
    rw [hp]
  have hhi (a c : M128i) (f h : Nat → BitVec 8) (ha : ∀ t : Fin 16, a t = f t)
      (hc : ∀ t : Fin 16, c t = h t) (k : Fin 16) (p e : Nat) (hp : 8 + k.val / 2 = p)
      (he : k.val % 2 = e) : mm_unpackhi_epi8 a c k = if e = 0 then f p else h p := by
    unfold mm_unpackhi_epi8 unpackHi
    rw [ha, hc, he, ← hp]
  have hzero : ∀ t : Fin 16, mm_setzero_si128 t = 0 := fun _ => rfl
  have hsplit : block out 64 (bgra b g r) = block out 16 (fun t => bgra b g r (4 * 0 + t)) ++
      block (out + 16) 16 (fun t => bgra b g r (4 * 4 + t)) ++
      block (out + 32) 16 (fun t => bgra b g r (4 * 8 + t)) ++
      block (out + 48) 16 (fun t => bgra b g r (4 * 12 + t)) := by
    rw [show 64 = 16 + 16 + 16 + 16 from rfl, block_add, block_add, block_add]
    simp only [Nat.mul_zero, Nat.zero_add]
    rfl
  rw [hsplit]
  unfold pack_6_rgb_vectors_in_4_bgra_vectors_sse2
  dsimp only
  congr 1
  · congr 1
    · congr 1
      · refine storeu_eq fun i => (halves_unpackLo_pairs (n := 8) _ _ i).trans ?_
        exact bgra_interleaved i _
          (hlo _ _ b g hb hg _ (0 + i / 4) (i % 2) (by dsimp only; omega) (by dsimp only; omega))
          (hlo _ _ r (fun _ => 0) hr hzero _ (0 + i / 4) (i % 2) (by dsimp only; omega)
            (by dsimp only; omega))
      · refine storeu_eq fun i => (halves_unpackHi_pairs (n := 8) _ _ i).trans ?_
        exact bgra_interleaved i _
          (hlo _ _ b g hb hg _ (4 + i / 4) (i % 2) (by dsimp only; omega) (by dsimp only; omega))
          (hlo _ _ r (fun _ => 0) hr hzero _ (4 + i / 4) (i % 2) (by dsimp only; omega)
            (by dsimp only; omega))
    · refine storeu_eq fun i => (halves_unpackLo_pairs (n := 8) _ _ i).trans ?_
      exact bgra_interleaved i _
        (hhi _ _ b g hb hg _ (8 + i / 4) (i % 2) (by dsimp only; omega) (by dsimp only; omega))
        (hhi _ _ r (fun _ => 0) hr hzero _ (8 + i / 4) (i % 2) (by dsimp only; omega)
          (by dsimp only; omega))
  · refine storeu_eq fun i => (halves_unpackHi_pairs (n := 8) _ _ i).trans ?_
    exact bgra_interleaved i _
      (hhi _ _ b g hb hg _ (12 + i / 4) (i % 2) (by dsimp only; omega) (by dsimp only; omega))
      (hhi _ _ r (fun _ => 0) hr hzero _ (12 + i / 4) (i % 2) (by dsimp only; omega)
        (by dsimp only; omega))

/-- **Sixteen pixels of a line**, two to a chroma pair. -/
theorem convertLine_eq {mY : Plane} {uv : M128i × M128i} {chroma : Nat → BitVec 8 × BitVec 8}
    (hlo : ChromaLanes uv.1 chroma) (hhi : ChromaLanes uv.2 fun k => chroma (4 + k))
    (y out : BitVec 32) :
    convertLine mY uv y out = block out 64 fun x =>
      ssePixel (mY (y + BitVec.ofNat 32 (x / 4))) (chroma (x / 4 / 2)).1 (chroma (x / 4 / 2)).2 (x % 4) := by
  have hbytes : (fun x => ssePixel (mY (y + BitVec.ofNat 32 (x / 4))) (chroma (x / 4 / 2)).1
      (chroma (x / 4 / 2)).2 (x % 4)) =
      bgra (fun t => ssePixel (mY (y + BitVec.ofNat 32 t)) (chroma (t / 2)).1 (chroma (t / 2)).2 0)
        (fun t => ssePixel (mY (y + BitVec.ofNat 32 t)) (chroma (t / 2)).1 (chroma (t / 2)).2 1)
        (fun t => ssePixel (mY (y + BitVec.ofNat 32 t)) (chroma (t / 2)).1 (chroma (t / 2)).2 2) := by
    funext x
    unfold bgra
    split
    all_goals rename_i h
    · rw [h]
    · rw [h]
    · rw [h]
    · unfold ssePixel
      split
      all_goals first | rfl | contradiction
  rw [hbytes]
  unfold convertLine
  apply pack_eq
  · intro t
    refine (packed_eq _ hlo hhi uvBCoeffs_eq (by decide) (by decide) t).trans ?_
    simp only [Int.zero_mul, Int.add_zero]
    rfl
  · intro t
    refine (packed_eq _ hlo hhi uvGCoeffs_eq (by decide) (by decide) t).trans ?_
    have hminus (a b : Int) : -44 * a + -91 * b = -44 * a - 91 * b := by omega
    rw [hminus]
    rfl
  · intro t
    refine (packed_eq _ hlo hhi uvRCoeffs_eq (by decide) (by decide) t).trans ?_
    simp only [Int.zero_mul, Int.zero_add]
    rfl

/-! ### The chroma that is unpacked -/

/-- Bytes of `U` and `V` in turns, as lanes. -/
theorem chromaLanes_unpack {scratch : M128i} {f : Nat → BitVec 8 × BitVec 8}
    (h : ∀ k : Fin 8, scratch ⟨2 * k, by omega⟩ = (f k).1 ∧ scratch ⟨2 * k + 1, by omega⟩ = (f k).2) :
    ChromaLanes (mm_unpacklo_epi8 scratch mm_setzero_si128) f ∧
      ChromaLanes (mm_unpackhi_epi8 scratch mm_setzero_si128) fun k => f (4 + k) := by
  constructor
  · intro k
    obtain ⟨hu, hv⟩ := h ⟨k, by omega⟩
    rw [epi16_unpacklo_zero, epi16_unpacklo_zero]
    dsimp only at hu hv ⊢
    rw [hu, hv]
    exact ⟨rfl, rfl⟩
  · intro k
    obtain ⟨hu, hv⟩ := h ⟨4 + k, by omega⟩
    have heven : 8 + 2 * k.val = 2 * (4 + k) := by omega
    have hodd : 8 + (2 * k.val + 1) = 2 * (4 + k) + 1 := by omega
    rw [epi16_unpackhi_zero, epi16_unpackhi_zero]
    simp only [heven, hodd, hu, hv, and_self]

theorem chromaLanes_low {u v : M128i} {f : Nat → BitVec 8 × BitVec 8}
    (h : ∀ k : Fin 8, u ⟨k, by omega⟩ = (f k).1 ∧ v ⟨k, by omega⟩ = (f k).2) :
    ChromaLanes (unpack_low_yuv42Xp_to_uv_vector_sse2 u v).1 f ∧
      ChromaLanes (unpack_low_yuv42Xp_to_uv_vector_sse2 u v).2 fun k => f (4 + k) := by
  refine chromaLanes_unpack fun k => ?_
  have heven : 2 * k.val / 2 = k := by omega
  have hodd : (2 * k.val + 1) / 2 = k := by omega
  simp [mm_unpacklo_epi8, unpackLo, heven, hodd, h k]

theorem chromaLanes_high {u v : M128i} {f : Nat → BitVec 8 × BitVec 8}
    (h : ∀ k : Fin 8, u ⟨8 + k, by omega⟩ = (f k).1 ∧ v ⟨8 + k, by omega⟩ = (f k).2) :
    ChromaLanes (unpack_high_yuv42Xp_to_uv_vector_sse2 u v).1 f ∧
      ChromaLanes (unpack_high_yuv42Xp_to_uv_vector_sse2 u v).2 fun k => f (4 + k) := by
  refine chromaLanes_unpack fun k => ?_
  have heven : 2 * k.val / 2 = k := by omega
  have hodd : (2 * k.val + 1) / 2 = k := by omega
  simp [mm_unpackhi_epi8, unpackHi, heven, hodd, h k]

theorem chromaLanes_nv12 (uv : M128i) {f : Nat → BitVec 8 × BitVec 8}
    (h : ∀ k : Fin 8, uv ⟨2 * k, by omega⟩ = (f k).1 ∧ uv ⟨2 * k + 1, by omega⟩ = (f k).2) :
    ChromaLanes (unpack_nv12_to_uv_vector_sse2 uv).1 f ∧
      ChromaLanes (unpack_nv12_to_uv_vector_sse2 uv).2 fun k => f (4 + k) :=
  chromaLanes_unpack h

end Kernels

/-- Whatever the chroma, the bytes of sixteen pixels are stored. -/
theorem convertLine_block (mY : Plane) (uv : M128i × M128i) (y out : BitVec 32) :
    ∃ f, convertLine mY uv y out = block out 64 f := by
  have hbytes (a : M128i) : ∃ f : Nat → BitVec 8, ∀ t : Fin 16, a t = f t :=
    ⟨fun n => if h : n < 16 then a ⟨n, h⟩ else 0, fun t => by simp⟩
  obtain ⟨b, hb⟩ := hbytes _
  obtain ⟨g, hg⟩ := hbytes _
  obtain ⟨r, hr⟩ := hbytes _
  exact ⟨_, pack_eq out hb hg hr⟩

/-! ## How near the kernels come -/

/-- The nearest byte. -/
theorem toNat_clamp (x : Int) : ((ssePixel.clamp x).toNat : Int) = max 0 (min x 255) := by
  unfold ssePixel.clamp
  rw [BitVec.toNat_ofInt]
  omega

theorem ToUChar_eq (x : Int) : ToUChar x = ssePixel.clamp x := by
  unfold ToUChar ssePixel.clamp
  split_ifs with hneg hbig
  · rw [max_eq_left (by omega)]
    rfl
  · rw [min_eq_right (by omega)]
    rfl
  · rw [min_eq_left (by omega), max_eq_right (by omega)]

/-- **A colour** is what the scalar converters compute, or one less. -/
theorem ssePixel_near (iY iU iV : BitVec 8) (k : Nat) :
    (ssePixel iY iU iV k).toNat ≤ (pixel iY iU iV k).toNat ∧
      (pixel iY iU iV k).toNat ≤ (ssePixel iY iU iV k).toNat + 1 := by
  have hu := iU.isLt
  have hv := iV.isLt
  -- the sum of seven-bit products is at most one below that of the sixteen-bit ones, and clamping
  -- keeps it so
  have hclamp (y x : Int) (h : x ≤ y) (h1 : y ≤ x + 1) :
      (ssePixel.clamp x).toNat ≤ (ToUChar y).toNat ∧
        (ToUChar y).toNat ≤ (ssePixel.clamp x).toNat + 1 := by
    have hx := toNat_clamp x
    have hy := toNat_clamp y
    rw [ToUChar_eq]
    omega
  rcases k with _ | _ | _ | k
  · apply hclamp
    all_goals
      simp only [iBCommon, Int.shiftRight_eq_div_pow]
      omega
  · apply hclamp
    all_goals
      simp only [iGCommon, Int.shiftRight_eq_div_pow]
      omega
  · apply hclamp
    all_goals
      simp only [iRCommon, Int.shiftRight_eq_div_pow]
      omega
  · exact ⟨Nat.le_refl _, Nat.le_succ _⟩

end TiraRdp.ImageProcess
