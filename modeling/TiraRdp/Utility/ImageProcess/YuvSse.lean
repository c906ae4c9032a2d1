import TiraRdp.Utility.ImageProcess.Kernels

/-!
# `ImageProcess`: the SSE converters from YUV to RGB

`YUV420ToBGRA32_SSE`, with `bSmooth` false, and `NV12ToBGRA32_SSE`
(`common/utility/private/common/ImageProcess.cpp:1769-1939`). `sixteenByTwo` is a block of sixteen
columns in two lines, the same in both: what they unpack of the chroma is its argument. The loops
count the pixels and the lines that are left.

What a converter leaves behind are its stores, and the addresses that it loaded sixteen bytes from.

Results:
* `sse_agrees`: for widths that are a multiple of sixteen, other than sixteen for YUV420, and even
  heights, both write what the scalar converters write, up to one.
* `sse_covers_iff`: they end, write the whole rectangle and nothing else, and load inside the
  planes, exactly when the height is even and, for YUV420, the width is not sixteen.
-/

namespace TiraRdp.ImageProcess

open Lib Lib.Loop Lib.Raster Lib.Simd

/-! ## The lines -/

/-- The pointers of a pair of lines, and what has been stored and loaded. -/
structure SseLines (κ : Type) where
  y_line1 : BitVec 32
  y_line2 : BitVec 32
  chroma : κ
  rgb_out_line1 : BitVec 32
  rgb_out_line2 : BitVec 32
  pixels_remaining_on_line : BitVec 32
  lines_remaining : BitVec 32
  log : Stores
  yLoads : List (BitVec 32)
  chromaLoads : List κ

section Lines

variable {κ : Type}

/-- Sixteen pixels of both lines, with the chroma that has been unpacked for them. -/
def sixteenByTwo (mY : Plane) (uv : M128i × M128i) (s : SseLines κ) : SseLines κ :=
  { s with
    y_line1 := s.y_line1 + 16
    y_line2 := s.y_line2 + 16
    rgb_out_line1 := s.rgb_out_line1 + 64
    rgb_out_line2 := s.rgb_out_line2 + 64
    log := s.log ++ convertLine mY uv s.y_line1 s.rgb_out_line1 ++
      convertLine mY uv s.y_line2 s.rgb_out_line2
    yLoads := s.yLoads ++ [s.y_line1, s.y_line2] }

/-- At the end of a pair of lines, `t`, on to the next pair from where it started, `s`. -/
def nextPair (uRgbStride uYStride uWidth : BitVec 32) (nextChroma : κ → κ) (s t : SseLines κ) :
    SseLines κ :=
  { t with
    y_line1 := s.y_line1 + 2 * uYStride
    y_line2 := s.y_line2 + 2 * uYStride
    rgb_out_line1 := s.rgb_out_line1 + 2 * uRgbStride
    rgb_out_line2 := s.rgb_out_line2 + 2 * uRgbStride
    chroma := nextChroma s.chroma
    lines_remaining := t.lines_remaining - 2
    pixels_remaining_on_line := uWidth }

/-- A round of the loop over the pairs of lines, of both converters. -/
def linePair (fuel : Nat) (round : SseLines κ → SseLines κ) (uRgbStride uYStride uWidth : BitVec 32)
    (nextChroma : κ → κ) (s : SseLines κ) : Option (SseLines κ) :=
  (loop (fun s => s.pixels_remaining_on_line != 0#32) (fun s => some (round s)) fuel s).map
    (nextPair uRgbStride uYStride uWidth nextChroma s)

/-- The loops of both converters. -/
def linePairs (fuel : Nat) (round : SseLines κ → SseLines κ)
    (uRgbStride uYStride uWidth uHeight : BitVec 32) (chroma : κ) (nextChroma : κ → κ) :
    Option (SseLines κ) :=
  loop (fun s => s.lines_remaining != 0#32)
    (linePair fuel round uRgbStride uYStride uWidth nextChroma) fuel
    ⟨0, uYStride, chroma, 0, uRgbStride, uWidth, uHeight, [], [], []⟩

/-- A scalar converter stands in; its loads are not of sixteen bytes. -/
def SseLines.scalar (chroma : κ) (log : Stores) : SseLines κ :=
  ⟨0, 0, chroma, 0, 0, 0, 0, log, [], []⟩

end Lines

/-- Thirty-two pixels of both lines; with sixteen left, sixteen back. -/
def yuv420Round (mY mU mV : Plane) (s : SseLines (BitVec 32 × BitVec 32)) :
    SseLines (BitVec 32 × BitVec 32) :=
  let u := mm_loadu_si128 mU s.chroma.1
  let v := mm_loadu_si128 mV s.chroma.2
  let t := sixteenByTwo mY (unpack_low_yuv42Xp_to_uv_vector_sse2 u v) s
  let t := sixteenByTwo mY (unpack_high_yuv42Xp_to_uv_vector_sse2 u v) t
  let t := { t with
    chroma := (s.chroma.1 + 16, s.chroma.2 + 16)
    chromaLoads := s.chromaLoads ++ [s.chroma, s.chroma]
    pixels_remaining_on_line := s.pixels_remaining_on_line - 32 }
  if t.pixels_remaining_on_line = 16 then
    { t with
      y_line1 := t.y_line1 - 16
      y_line2 := t.y_line2 - 16
      rgb_out_line1 := t.rgb_out_line1 - 64
      rgb_out_line2 := t.rgb_out_line2 - 64
      chroma := (t.chroma.1 - 8, t.chroma.2 - 8)
      pixels_remaining_on_line := t.pixels_remaining_on_line + 16 }
  else t

/-- With `bSmooth` false. -/
def YUV420ToBGRA32_SSE (fuel : Nat) (uRgbStride : BitVec 32) (mY mU mV : Plane)
    (uYStride uUStride uVStride uWidth uHeight : BitVec 32) :
    Option (SseLines (BitVec 32 × BitVec 32)) :=
  if uWidth % 16 ≠ 0 then
    some (.scalar (0, 0)
      (YUV420ToBGRA32 uRgbStride mY mU mV uYStride uUStride uVStride uWidth uHeight))
  else
    linePairs fuel (yuv420Round mY mU mV) uRgbStride uYStride uWidth uHeight (0, 0)
      fun c => (c.1 + uUStride, c.2 + uVStride)

/-- Sixteen pixels of both lines. -/
def nv12Round (mY mUV : Plane) (s : SseLines (BitVec 32)) : SseLines (BitVec 32) :=
  let t := sixteenByTwo mY (unpack_nv12_to_uv_vector_sse2 (mm_loadu_si128 mUV s.chroma)) s
  { t with
    chroma := s.chroma + 16
    chromaLoads := s.chromaLoads ++ [s.chroma]
    pixels_remaining_on_line := s.pixels_remaining_on_line - 16 }

def NV12ToBGRA32_SSE (fuel : Nat) (uRgbStride : BitVec 32) (mY mUV : Plane)
    (uYStride uUVStride uWidth uHeight : BitVec 32) : Option (SseLines (BitVec 32)) :=
  if uWidth % 16 ≠ 0 then
    some (.scalar 0 (NV12ToBGRA32 uRgbStride mY mUV uYStride uUVStride uWidth uHeight))
  else
    linePairs fuel (nv12Round mY mUV) uRgbStride uYStride uWidth uHeight 0 fun c => c + uUVStride

/-! ## The loops -/

section Loops

variable {κ : Type} {rs ys uWidth uHeight : BitVec 32} {mY : Plane}
  {chroma : Nat → Nat → BitVec 8 × BitVec 8} {w h i c d : Nat} {s : SseLines κ}

/-- The pointers are at column `c` of the lines `2 * i` and `2 * i + 1`, which are painted up to
column `d`, and what has been loaded of `Y` is inside. -/
structure SseLines.At (rs ys : BitVec 32) (mY : Plane) (chroma : Nat → Nat → BitVec 8 × BitVec 8)
    (w h i c d : Nat) (s : SseLines κ) : Prop where
  y_line1 : s.y_line1 = place ys (2 * i) c
  y_line2 : s.y_line2 = place ys (2 * i + 1) c
  rgb_out_line1 : s.rgb_out_line1 = place rs (2 * i) (4 * c)
  rgb_out_line2 : s.rgb_out_line2 = place rs (2 * i + 1) (4 * c)
  log : Paints rs (picture ssePixel 4 (luma mY ys) chroma) (Scanned 2 (4 * w) i (4 * d)) s.log
  yLoads : ∀ p ∈ s.yLoads, ∀ t < 16, Within ys w h (p + BitVec.ofNat 32 t)

/-- Sixteen pixels of one line of a pair. -/
theorem paints_convertLine (rs ys : BitVec 32) (mY : Plane) {uv : M128i × M128i}
    {f : Nat → BitVec 8 × BitVec 8} {k : Nat}
    (huv : ChromaLanes uv.1 f ∧ ChromaLanes uv.2 fun k => f (4 + k))
    (hf : ∀ j < 16, chroma k (c + j) = f (j / 2)) :
    Paints rs (picture ssePixel 4 (luma mY ys) chroma)
      (fun j y => j = k ∧ 4 * c ≤ y ∧ y < 4 * c + 64)
      (convertLine mY uv (place ys k c) (place rs k (4 * c))) := by
  rw [convertLine_eq huv.1 huv.2]
  apply paints_block
  intro x hx
  rw [picture_add (by decide), hf _ (by omega), place_add]
  rfl

theorem SseLines.At.sixteenByTwo {uv : M128i × M128i} {f : Nat → BitVec 8 × BitVec 8}
    (hs : s.At rs ys mY chroma w h i c d) (hcd : c ≤ d) (hd : d ≤ c + 16) (hw : c + 16 ≤ w)
    (hh : 2 * i + 1 < h) (huv : ChromaLanes uv.1 f ∧ ChromaLanes uv.2 fun k => f (4 + k))
    (hf : ∀ a < 2, ∀ j < 16, chroma (2 * i + a) (c + j) = f (j / 2)) :
    (sixteenByTwo mY uv s).At rs ys mY chroma w h i (c + 16) (c + 16) := by
  unfold ImageProcess.sixteenByTwo
  constructor
  · rw [hs.y_line1]
    exact place_add 16
  · rw [hs.y_line2]
    exact place_add 16
  · rw [hs.rgb_out_line1]
    exact place_add 64
  · rw [hs.rgb_out_line2]
    exact place_add 64
  · have hline1 := paints_convertLine rs ys mY (k := 2 * i) huv (hf 0 (by decide))
    have hline2 := paints_convertLine rs ys mY (k := 2 * i + 1) huv (hf 1 (by decide))
    rw [hs.y_line1, hs.y_line2, hs.rgb_out_line1, hs.rgb_out_line2]
    refine ((hs.log.append hline1).append hline2).congr fun j y => ?_
    unfold Scanned
    omega
  · intro p hp t ht
    rw [List.mem_append] at hp
    rcases hp with hp | hp
    · exact hs.yLoads p hp t ht
    · rw [hs.y_line1, hs.y_line2, List.mem_pair] at hp
      rcases hp with rfl | rfl
      · exact ⟨2 * i, by omega, c + t, by omega, place_add t⟩
      · exact ⟨2 * i + 1, hh, c + t, by omega, place_add t⟩

/-- Everything about a state: `pos` is where the chroma pointer is, and `inside` says that a load
is. -/
structure SseLines.State (rs ys : BitVec 32) (mY : Plane) (chroma : Nat → Nat → BitVec 8 × BitVec 8)
    (pos : Nat → Nat → κ) (inside : κ → Prop) (w h i c d : Nat) (s : SseLines κ) : Prop
    extends s.At rs ys mY chroma w h i c d where
  pos : s.chroma = pos i c
  pixels : s.pixels_remaining_on_line = BitVec.ofNat 32 (w - c)
  lines : s.lines_remaining = BitVec.ofNat 32 (h - 2 * i)
  chromaLoads : ∀ p ∈ s.chromaLoads, inside p

/-- On the pair of lines `i`, at a column that `ok` allows. -/
def SseLines.OnPair (rs ys : BitVec 32) (mY : Plane) (chroma : Nat → Nat → BitVec 8 × BitVec 8)
    (pos : Nat → Nat → κ) (inside : κ → Prop) (ok : Nat → Prop) (w h i : Nat)
    (s : SseLines κ) : Prop :=
  ∃ c d, s.State rs ys mY chroma pos inside w h i c d ∧ c % 16 = 0 ∧ c ≤ d ∧
    d ≤ c + 16 ∧ d ≤ w ∧ ok c

/-- A round keeps a pair of lines, and leaves less of it. -/
def KeepsPair (round : SseLines κ → SseLines κ) (rs ys : BitVec 32) (mY : Plane)
    (chroma : Nat → Nat → BitVec 8 × BitVec 8) (pos : Nat → Nat → κ) (inside : κ → Prop)
    (ok : Nat → Prop) (w h : Nat) : Prop :=
  ∀ i s, 2 * i + 1 < h → s.OnPair rs ys mY chroma pos inside ok w h i →
    s.pixels_remaining_on_line ≠ 0#32 →
    (round s).OnPair rs ys mY chroma pos inside ok w h i ∧
      (round s).pixels_remaining_on_line.toNat < s.pixels_remaining_on_line.toNat

variable {round : SseLines κ → SseLines κ} {pos : Nat → Nat → κ} {inside : κ → Prop} {ok : Nat → Prop}
  {fuel : Nat} {nextChroma : κ → κ}

/-- **A pair of lines** is painted from end to end. -/
theorem linePair_total (hround : KeepsPair round rs ys mY chroma pos inside ok uWidth.toNat h)
    (hnext : ∀ i, nextChroma (pos i 0) = pos (i + 1) 0) (hfuel : uWidth.toNat ≤ fuel)
    (hok : ok 0) (hh : 2 * i + 1 < h) (hlt : h < 2 ^ 32)
    (hs : s.State rs ys mY chroma pos inside uWidth.toNat h i 0 0) :
    ∃ t, linePair fuel round rs ys uWidth nextChroma s = some t ∧
      t.State rs ys mY chroma pos inside uWidth.toNat h (i + 1) 0 0 := by
  have hwidth := uWidth.isLt
  obtain ⟨t, ht, ⟨c, d, hstate, -, hcd, -, hdw, -⟩, hdone⟩ := loop_total
    (fun s => s.pixels_remaining_on_line != 0#32) (fun s => some (round s))
    (fun s => s.OnPair rs ys mY chroma pos inside ok uWidth.toNat h i)
    (fun s => s.pixels_remaining_on_line.toNat)
    (fun s hs hc => ⟨_, rfl, hround i s hh hs (bne_iff_ne.mp hc)⟩) fuel s
    ⟨0, 0, hs, rfl, Nat.le_refl _, by omega, by omega, hok⟩
    (by rw [hs.pixels, toNat_ofNat_of_lt (by omega)]; omega)
  have hzero : t.pixels_remaining_on_line = 0#32 := by simpa using hdone
  have hend : uWidth.toNat - c = 0 := by
    rw [← toNat_ofNat_of_lt (n := uWidth.toNat - c) (by omega), ← hstate.pixels, hzero]
    rfl
  have hd : d = uWidth.toNat := by omega
  refine ⟨nextPair rs ys uWidth nextChroma s t, ?_, ?_⟩
  · unfold linePair
    rw [ht, Option.map_some]
  · refine ⟨⟨?_, ?_, ?_, ?_, ?_, hstate.yLoads⟩, ?_, ?_, ?_, hstate.chromaLoads⟩
    · exact (congrArg (· + 2 * ys) hs.y_line1).trans place_add_two
    · exact (congrArg (· + 2 * ys) hs.y_line2).trans place_add_two
    · exact (congrArg (· + 2 * rs) hs.rgb_out_line1).trans place_add_two
    · exact (congrArg (· + 2 * rs) hs.rgb_out_line2).trans place_add_two
    · subst hd
      exact hstate.log.congr scanned_next
    · exact (congrArg nextChroma hs.pos).trans (hnext i)
    · show uWidth = _
      simp
    · show t.lines_remaining - 2 = _
      rw [hstate.lines, ← BitVec.toNat_inj, BitVec.toNat_sub, toNat_ofNat_of_lt (by omega),
        toNat_ofNat_of_lt (by omega)]
      simp
      omega

/-- **The loops of both converters**, for an even height: they end, everything is painted, and what
is loaded is inside. -/
theorem linePairs_total
    (hround : KeepsPair round rs ys mY chroma pos inside ok uWidth.toNat uHeight.toNat)
    (hnext : ∀ i, nextChroma (pos i 0) = pos (i + 1) 0) (hfuel : uWidth.toNat ≤ fuel)
    (hfuelh : uHeight.toNat ≤ fuel) (hok : ok 0) (heven : uHeight.toNat % 2 = 0) :
    ∃ t, linePairs fuel round rs ys uWidth uHeight (pos 0 0) nextChroma = some t ∧
      Paints rs (picture ssePixel 4 (luma mY ys) chroma)
        (fun i x => i < uHeight.toNat ∧ x < 4 * uWidth.toNat) t.log ∧
      (∀ p ∈ t.yLoads, ∀ n < 16, Within ys uWidth.toNat uHeight.toNat (p + BitVec.ofNat 32 n)) ∧
      ∀ p ∈ t.chromaLoads, inside p := by
  have hlt := uHeight.isLt
  have hstart (stride : BitVec 32) : place stride 1 0 = stride := by simp [place]
  have hinit : SseLines.State rs ys mY chroma pos inside uWidth.toNat uHeight.toNat 0 0 0
      ⟨0, ys, pos 0 0, 0, rs, uWidth, uHeight, [], [], []⟩ :=
    ⟨⟨place_zero.symm, (hstart ys).symm, place_zero.symm, (hstart rs).symm,
      paints_nil not_scanned_zero, by simp⟩, rfl, by simp, by simp, by simp⟩
  obtain ⟨t, ht, ⟨i, hstate, hi⟩, hdone⟩ := loop_total
    (fun s => s.lines_remaining != 0#32) (linePair fuel round rs ys uWidth nextChroma)
    (fun s => ∃ i, s.State rs ys mY chroma pos inside uWidth.toNat uHeight.toNat i 0 0 ∧
      2 * i ≤ uHeight.toNat)
    (fun s => s.lines_remaining.toNat)
    (by
      rintro s ⟨i, hs, hi⟩ hc
      have hleft : 2 * i ≠ uHeight.toNat := by
        intro hend
        have hnone := bne_iff_ne.mp hc
        rw [hs.lines, hend, Nat.sub_self] at hnone
        exact hnone rfl
      obtain ⟨t, ht, hstate⟩ := linePair_total hround hnext hfuel hok (by omega) hlt hs
      refine ⟨t, ht, ⟨i + 1, hstate, by omega⟩, ?_⟩
      rw [hstate.lines, hs.lines, toNat_ofNat_of_lt (by omega), toNat_ofNat_of_lt (by omega)]
      omega)
    fuel _ ⟨0, hinit, Nat.zero_le _⟩ hfuelh
  have hzero : t.lines_remaining = 0#32 := by simpa using hdone
  have hend : uHeight.toNat - 2 * i = 0 := by
    rw [← toNat_ofNat_of_lt (n := uHeight.toNat - 2 * i) (by omega), ← hstate.lines, hzero]
    rfl
  have hheight : 2 * i = uHeight.toNat := by omega
  refine ⟨t, ht, hstate.log.congr fun j y => ?_, hstate.yLoads, hstate.chromaLoads⟩
  rw [Nat.mul_zero, scanned_all, hheight]

end Loops

section Rounds

variable {rs ys us vs : BitVec 32} {mY mU mV mUV : Plane} {w h : Nat}

/-- Where the chroma pointer of NV12 is. -/
def nv12Pos (us : BitVec 32) (i c : Nat) : BitVec 32 := place us i c

/-- Sixteen bytes inside the `UV` plane. -/
def nv12Inside (us : BitVec 32) (w h : Nat) (p : BitVec 32) : Prop :=
  ∀ n < 16, Within us w ((h + 1) / 2) (p + BitVec.ofNat 32 n)

theorem keepsPair_nv12 (hw : w % 16 = 0) (hlt : w < 2 ^ 32) :
    KeepsPair (nv12Round mY mUV) rs ys mY (nv12 mUV us) (nv12Pos us) (nv12Inside us w h)
      (fun _ => True) w h := by
  rintro i s hh ⟨c, d, hs, hc, hcd, hd, hdw, -⟩ hleft
  have hne : w - c ≠ 0 := by
    intro hzero
    rw [hs.pixels, hzero] at hleft
    exact hleft rfl
  have hcw : c + 16 ≤ w := by omega
  have huv := chromaLanes_nv12 (mm_loadu_si128 mUV s.chroma)
    (f := fun k => (mUV (place us i (c + 2 * k)), mUV (place us i (c + 2 * k + 1)))) (by
      intro k
      rw [hs.pos]
      constructor
      · exact congrArg mUV (place_add _)
      · exact congrArg mUV (place_add _))
  have hat := hs.toAt.sixteenByTwo hcd hd hcw hh huv (by
    intro a ha j hj
    have hi : (2 * i + a) / 2 = i := by omega
    have hj : 2 * ((c + j) / 2) = c + 2 * (j / 2) := by omega
    rw [nv12, hi, hj])
  have hpixels : (nv12Round mY mUV s).pixels_remaining_on_line =
      BitVec.ofNat 32 (w - (c + 16)) := by
    show s.pixels_remaining_on_line - BitVec.ofNat 32 16 = _
    rw [hs.pixels, ofNat_sub_ofNat (by omega), Nat.sub_sub]
  refine ⟨⟨c + 16, c + 16, ⟨⟨hat.y_line1, hat.y_line2, hat.rgb_out_line1, hat.rgb_out_line2, hat.log,
    hat.yLoads⟩, ?_, hpixels, hs.lines, ?_⟩, by omega, Nat.le_refl _, by omega, hcw, trivial⟩, ?_⟩
  · show s.chroma + BitVec.ofNat 32 16 = _
    rw [hs.pos]
    exact place_add 16
  · intro p hp
    rcases List.mem_append.mp hp with hp | hp
    · exact hs.chromaLoads p hp
    · intro n hn
      rw [List.mem_singleton.mp hp, hs.pos]
      exact ⟨i, by omega, c + n, by omega, place_add n⟩
  · rw [hpixels, hs.pixels, toNat_ofNat_of_lt (by omega), toNat_ofNat_of_lt (by omega)]
    omega

/-- Where the chroma pointers of YUV420 are. -/
def yuv420Pos (us vs : BitVec 32) (i c : Nat) : BitVec 32 × BitVec 32 :=
  (place us i (c / 2), place vs i (c / 2))

/-- Sixteen bytes inside the `U` plane, and sixteen inside the `V` plane. -/
def yuv420Inside (us vs : BitVec 32) (w h : Nat) (p : BitVec 32 × BitVec 32) : Prop :=
  ∀ n < 16, Within us (w / 2) ((h + 1) / 2) (p.1 + BitVec.ofNat 32 n) ∧
    Within vs (w / 2) ((h + 1) / 2) (p.2 + BitVec.ofNat 32 n)

/-- With sixteen pixels left, it goes back by sixteen; that is never so at the start of a round. -/
theorem keepsPair_yuv420 (hw : w % 16 = 0) (hlt : w < 2 ^ 32) :
    KeepsPair (yuv420Round mY mU mV) rs ys mY (yuv420 mU mV us vs) (yuv420Pos us vs)
      (yuv420Inside us vs w h) (fun c => w - c ≠ 16) w h := by
  rintro i s hh ⟨c, d, hs, hc, hcd, hd, hdw, hok⟩ hleft
  have hne : w - c ≠ 0 := by
    intro hzero
    rw [hs.pixels, hzero] at hleft
    exact hleft rfl
  have hcw : c + 32 ≤ w := by omega
  have hlow :=
    chromaLanes_low (u := mm_loadu_si128 mU s.chroma.1) (v := mm_loadu_si128 mV s.chroma.2)
    (f := fun k => (mU (place us i (c / 2 + k)), mV (place vs i (c / 2 + k)))) (by
      intro k
      rw [hs.pos]
      constructor
      · exact congrArg mU (place_add _)
      · exact congrArg mV (place_add _))
  have hhigh := chromaLanes_high (u := mm_loadu_si128 mU s.chroma.1)
    (v := mm_loadu_si128 mV s.chroma.2)
    (f := fun k => (mU (place us i (c / 2 + (8 + k))), mV (place vs i (c / 2 + (8 + k))))) (by
      intro k
      rw [hs.pos]
      constructor
      · exact congrArg mU (place_add _)
      · exact congrArg mV (place_add _))
  have hfirst := hs.toAt.sixteenByTwo hcd hd (by omega) hh hlow (by
    intro a ha j hj
    have hi : (2 * i + a) / 2 = i := by omega
    have hj : (c + j) / 2 = c / 2 + j / 2 := by omega
    rw [yuv420, hi, hj])
  have hat := hfirst.sixteenByTwo (Nat.le_refl _) (by omega) (by omega) hh hhigh (by
    intro a ha j hj
    have hi : (2 * i + a) / 2 = i := by omega
    have hj : (c + 16 + j) / 2 = c / 2 + (8 + j / 2) := by omega
    rw [yuv420, hi, hj])
  have hloads : ∀ p ∈ s.chromaLoads ++ [s.chroma, s.chroma], yuv420Inside us vs w h p := by
    intro p hp
    rcases List.mem_append.mp hp with hp | hp
    · exact hs.chromaLoads p hp
    · have hp : p = yuv420Pos us vs i c := by
        rw [hs.pos] at hp
        simpa using hp
      intro n hn
      rw [hp]
      exact ⟨⟨i, by omega, c / 2 + n, by omega, place_add n⟩, ⟨i, by omega, c / 2 + n, by omega, place_add n⟩⟩
  have hpixels : s.pixels_remaining_on_line - 32 = BitVec.ofNat 32 (w - (c + 32)) := by
    show s.pixels_remaining_on_line - BitVec.ofNat 32 32 = _
    rw [hs.pixels, ofNat_sub_ofNat (by omega), Nat.sub_sub]
  have hnow : s.pixels_remaining_on_line.toNat = w - c := by
    rw [hs.pixels, toNat_ofNat_of_lt (by omega)]
  have hback : s.pixels_remaining_on_line - 32 = 16 ↔ w = c + 48 := by
    rw [hpixels, ← BitVec.toNat_inj, toNat_ofNat_of_lt (by omega)]
    show w - (c + 32) = 16 ↔ w = c + 48
    omega
  have hchroma : s.chroma.1 + 16 = place us i (c / 2 + 16) ∧
      s.chroma.2 + 16 = place vs i (c / 2 + 16) := by
    rw [hs.pos]
    exact ⟨place_add 16, place_add 16⟩
  unfold yuv420Round
  dsimp only
  split_ifs with hsixteen
  · have hw48 : w = c + 48 := hback.mp hsixteen
    have hhalf : (c + 16) / 2 + 8 = c / 2 + 16 := by omega
    refine ⟨⟨c + 16, c + 32, ⟨⟨?_, ?_, ?_, ?_, hat.log, hat.yLoads⟩, ?_, ?_, hs.lines, hloads⟩, by omega,
      by omega, by omega, hcw, by omega⟩, ?_⟩
    · exact (congrArg (· - 16) hat.y_line1).trans (place_sub 16)
    · exact (congrArg (· - 16) hat.y_line2).trans (place_sub 16)
    · exact (congrArg (· - 64) hat.rgb_out_line1).trans (place_sub 64)
    · exact (congrArg (· - 64) hat.rgb_out_line2).trans (place_sub 64)
    · rw [hchroma.1, hchroma.2, ← hhalf]
      exact Prod.ext (place_sub 8) (place_sub 8)
    · show s.pixels_remaining_on_line - 32 + 16 = _
      rw [hback.mpr hw48, hw48]
      simp
    · show (s.pixels_remaining_on_line - 32 + 16).toNat < _
      rw [hback.mpr hw48, hnow, hw48]
      simp
  · have hw48 : w ≠ c + 48 := fun h => hsixteen (hback.mpr h)
    have hhalf : (c + 32) / 2 = c / 2 + 16 := by omega
    refine ⟨⟨c + 32, c + 32, ⟨⟨hat.y_line1, hat.y_line2, hat.rgb_out_line1, hat.rgb_out_line2, hat.log,
      hat.yLoads⟩, ?_, hpixels, hs.lines, hloads⟩, by omega, Nat.le_refl _, by omega, hcw, by omega⟩, ?_⟩
    · rw [hchroma.1, hchroma.2, yuv420Pos, hhalf]
    · rw [hpixels, hnow, toNat_ofNat_of_lt (by omega)]
      omega

end Rounds

/-! ## Even heights -/

section Even

variable {rs ys us vs uWidth uHeight : BitVec 32} {mY mU mV mUV : Plane} {fuel : Nat}

theorem umod_sixteen (hw : uWidth.toNat % 16 = 0) : ¬ uWidth % 16 ≠ 0 := by
  rw [not_not, ← BitVec.toNat_inj, BitVec.toNat_umod]
  exact hw

/-- **YUV420**, for any width of the fast path but sixteen. -/
theorem YUV420ToBGRA32_SSE_total (rs ys us vs : BitVec 32) (mY mU mV : Plane)
    (hw : uWidth.toNat % 16 = 0) (hw16 : uWidth.toNat ≠ 16)
    (hh : uHeight.toNat % 2 = 0) (hfuel : uWidth.toNat ≤ fuel) (hfuelh : uHeight.toNat ≤ fuel) :
    ∃ t, YUV420ToBGRA32_SSE fuel rs mY mU mV ys us vs uWidth uHeight = some t ∧
      Paints rs (picture ssePixel 4 (luma mY ys) (yuv420 mU mV us vs))
        (fun i x => i < uHeight.toNat ∧ x < 4 * uWidth.toNat) t.log ∧
      (∀ p ∈ t.yLoads, ∀ n < 16, Within ys uWidth.toNat uHeight.toNat (p + BitVec.ofNat 32 n)) ∧
      ∀ p ∈ t.chromaLoads, yuv420Inside us vs uWidth.toNat uHeight.toNat p := by
  have hstart : ((0, 0) : BitVec 32 × BitVec 32) = yuv420Pos us vs 0 0 := by
    simp [yuv420Pos, place]
  unfold YUV420ToBGRA32_SSE
  rw [if_neg (umod_sixteen hw), hstart]
  exact linePairs_total (keepsPair_yuv420 hw uWidth.isLt)
    (fun i => Prod.ext place_add_stride place_add_stride) hfuel hfuelh (by simpa using hw16) hh

/-- **NV12**, for any width of the fast path. -/
theorem NV12ToBGRA32_SSE_total (rs ys us : BitVec 32) (mY mUV : Plane)
    (hw : uWidth.toNat % 16 = 0) (hh : uHeight.toNat % 2 = 0)
    (hfuel : uWidth.toNat ≤ fuel) (hfuelh : uHeight.toNat ≤ fuel) :
    ∃ t, NV12ToBGRA32_SSE fuel rs mY mUV ys us uWidth uHeight = some t ∧
      Paints rs (picture ssePixel 4 (luma mY ys) (nv12 mUV us))
        (fun i x => i < uHeight.toNat ∧ x < 4 * uWidth.toNat) t.log ∧
      (∀ p ∈ t.yLoads, ∀ n < 16, Within ys uWidth.toNat uHeight.toNat (p + BitVec.ofNat 32 n)) ∧
      ∀ p ∈ t.chromaLoads, nv12Inside us uWidth.toNat uHeight.toNat p := by
  have hstart : (0 : BitVec 32) = nv12Pos us 0 0 := place_zero.symm
  unfold NV12ToBGRA32_SSE
  rw [if_neg (umod_sixteen hw), hstart]
  exact linePairs_total (keepsPair_nv12 hw uWidth.isLt) (fun i => place_add_stride) hfuel hfuelh trivial
    hh

/-- Two converters write the rectangle and nothing else, with alpha zero, and their colours differ
by at most one. -/
structure Agree (rs uWidth uHeight : BitVec 32) (sse scalar : Stores) : Prop where
  sse_rect : ∀ a, lastWrite sse a ≠ none ↔ Within rs (4 * uWidth.toNat) uHeight.toNat a
  scalar_rect : ∀ a, lastWrite scalar a ≠ none ↔ Within rs (4 * uWidth.toNat) uHeight.toNat a
  near : ∀ i < uHeight.toNat, ∀ j < uWidth.toNat, ∀ k < 4, ∃ x y,
    lastWrite sse (place rs i (4 * j + k)) = some x ∧
      lastWrite scalar (place rs i (4 * j + k)) = some y ∧ (k = 3 → x = 0 ∧ y = 0) ∧
      x.toNat ≤ y.toNat + 1 ∧ y.toNat ≤ x.toNat + 1

theorem agree_of_paints {sse scalar : Stores} {luma : Nat → Nat → BitVec 8}
    {chroma : Nat → Nat → BitVec 8 × BitVec 8} (hfits : Fits rs (4 * uWidth.toNat) uHeight.toNat)
    (hsse : Paints rs (picture ssePixel 4 luma chroma)
      (fun i x => i < uHeight.toNat ∧ x < 4 * uWidth.toNat) sse)
    (hscalar : Paints rs (picture pixel 4 luma chroma)
      (fun i x => i < uHeight.toNat ∧ x < 4 * uWidth.toNat) scalar) :
    Agree rs uWidth uHeight sse scalar := by
  refine ⟨hsse.lastWrite_ne_none_iff, hscalar.lastWrite_ne_none_iff, ?_⟩
  intro i hi j hj k hk
  have hx : 4 * j + k < 4 * uWidth.toNat := by omega
  refine ⟨_, _, hsse.lastWrite_eq hfits hi hx, hscalar.lastWrite_eq hfits hi hx, ?_⟩
  rw [picture_add (by decide), picture_add (by decide), Nat.div_eq_of_lt hk, Nat.mod_eq_of_lt hk]
  obtain ⟨hle, hle1⟩ := ssePixel_near (luma i (j + 0)) (chroma i (j + 0)).1 (chroma i (j + 0)).2 k
  refine ⟨?_, Nat.le_succ_of_le hle, hle1⟩
  rintro rfl
  exact ⟨rfl, rfl⟩

/-- **The SSE converters agree with the scalar ones**, also where YUV420 goes back by sixteen
pixels. -/
theorem sse_agrees (rs ys us vs uWidth uHeight : BitVec 32) (mY mU mV mUV : Plane)
    (hw : uWidth.toNat % 16 = 0) (hh : uHeight.toNat % 2 = 0)
    (hfits : Fits rs (4 * uWidth.toNat) uHeight.toNat) (fuel : Nat) (hfuel : uWidth.toNat ≤ fuel)
    (hfuelh : uHeight.toNat ≤ fuel) :
    (32 ≤ uWidth.toNat →
      ∃ t, YUV420ToBGRA32_SSE fuel rs mY mU mV ys us vs uWidth uHeight = some t ∧
        Agree rs uWidth uHeight t.log (YUV420ToBGRA32 rs mY mU mV ys us vs uWidth uHeight)) ∧
      ∃ t, NV12ToBGRA32_SSE fuel rs mY mUV ys us uWidth uHeight = some t ∧
        Agree rs uWidth uHeight t.log (NV12ToBGRA32 rs mY mUV ys us uWidth uHeight) := by
  constructor
  · intro hw32
    obtain ⟨t, ht, hpaints, -, -⟩ := YUV420ToBGRA32_SSE_total rs ys us vs mY mU mV hw (by omega) hh
      hfuel hfuelh
    exact ⟨t, ht, agree_of_paints hfits hpaints paints_YUV420ToBGRA32⟩
  · obtain ⟨t, ht, hpaints, -, -⟩ := NV12ToBGRA32_SSE_total rs ys us mY mUV hw hh hfuel hfuelh
    have heven : uWidth &&& 1 = 0 ∧ uHeight &&& 1 = 0 :=
      ⟨(and_one_eq_zero_iff _).mpr (by omega), (and_one_eq_zero_iff _).mpr hh⟩
    refine ⟨t, ht, agree_of_paints hfits hpaints ?_⟩
    rw [NV12ToBGRA32, NV12ToRGB, if_pos heven]
    exact paints_nv12Even .asign (by omega) hh

theorem sse_agrees_grey : ∃ t,
    YUV420ToBGRA32_SSE 48 192 (fun _ => 128) (fun _ => 90) (fun _ => 90) 48 24 24 48 2 = some t ∧
      Agree 192 48 2 t.log
        (YUV420ToBGRA32 192 (fun _ => 128) (fun _ => 90) (fun _ => 90) 48 24 24 48 2) :=
  (sse_agrees 192 48 24 24 48 2 (fun _ => 128) (fun _ => 90) (fun _ => 90) (fun _ => 90) (by decide)
    (by decide) (by decide) 48 (by decide) (by decide)).1 (by decide)

end Even

/-! ## The other heights and widths -/

section Odd

variable {κ : Type} {round : SseLines κ → SseLines κ} {rs ys uWidth uHeight : BitVec 32} {fuel : Nat}
  {chroma : κ} {nextChroma : κ → κ}

/-- **An odd height is never counted down to zero.** -/
theorem linePairs_odd (hround : ∀ s, (round s).lines_remaining = s.lines_remaining)
    (hh : uHeight.toNat % 2 = 1) :
    linePairs fuel round rs ys uWidth uHeight chroma nextChroma = none := by
  refine loop_never (fun s => s.lines_remaining.toNat % 2 = 1) ?_ ?_ fuel _ hh
  · intro s t hs ht
    obtain ⟨u, hu, rfl⟩ := Option.map_eq_some_iff.mp ht
    have hlines : u.lines_remaining = s.lines_remaining := by
      refine loop_invariant (fun u => u.lines_remaining = s.lines_remaining) ?_ fuel s u rfl hu
      intro v u hv hu
      rw [← Option.some.inj hu, hround, hv]
    show (u.lines_remaining - 2).toNat % 2 = 1
    rw [hlines, BitVec.toNat_sub]
    have htwo : (2 : BitVec 32).toNat = 2 := rfl
    rw [htwo]
    omega
  · intro s hs
    rw [bne_iff_ne]
    intro hzero
    rw [hzero] at hs
    exact absurd hs (by decide)

/-- Something has been stored at `a`. -/
def SseLines.Stored (a : BitVec 32) (s : SseLines κ) : Prop := ∃ v, (a, v) ∈ s.log

/-- What a round has stored stays stored to the end. -/
theorem linePairs_stored {a : BitVec 32} {m : Nat} {s t : SseLines κ}
    (hround : ∀ s, s.Stored a → (round s).Stored a) (hs : s.Stored a)
    (ht : loop (fun s => s.lines_remaining != 0#32) (linePair fuel round rs ys uWidth nextChroma) m s =
      some t) : t.Stored a := by
  refine loop_invariant (fun s => s.Stored a) ?_ m s t hs ht
  intro u v hu hv
  obtain ⟨x, hx, rfl⟩ := Option.map_eq_some_iff.mp hv
  refine loop_invariant (fun s => s.Stored a) ?_ fuel u x hu hx
  intro y z hy hz
  exact Option.some.inj hz ▸ hround y hy

end Odd

section Sixteen

variable {rs ys us vs uHeight : BitVec 32} {mY mU mV : Plane} {fuel : Nat}

theorem yuv420Round_lines (s : SseLines (BitVec 32 × BitVec 32)) :
    (yuv420Round mY mU mV s).lines_remaining = s.lines_remaining := by
  unfold yuv420Round
  dsimp only
  split_ifs
  all_goals rfl

/-- A round keeps what has been stored, and stores 128 bytes from its first pointer on. -/
theorem yuv420Round_stored (s : SseLines (BitVec 32 × BitVec 32)) (a : BitVec 32) :
    (s.Stored a → (yuv420Round mY mU mV s).Stored a) ∧
      ((∃ n < 128, a = s.rgb_out_line1 + BitVec.ofNat 32 n) → (yuv420Round mY mU mV s).Stored a) := by
  have hlog : (yuv420Round mY mU mV s).log =
      (sixteenByTwo mY (unpack_high_yuv42Xp_to_uv_vector_sse2 (mm_loadu_si128 mU s.chroma.1)
          (mm_loadu_si128 mV s.chroma.2))
        (sixteenByTwo mY (unpack_low_yuv42Xp_to_uv_vector_sse2 (mm_loadu_si128 mU s.chroma.1)
          (mm_loadu_si128 mV s.chroma.2)) s)).log := by
    unfold yuv420Round
    dsimp only
    split_ifs
    all_goals rfl
  constructor
  · rintro ⟨v, hv⟩
    refine ⟨v, ?_⟩
    rw [hlog]
    simp [sixteenByTwo, hv]
  · rintro ⟨n, hn, rfl⟩
    unfold SseLines.Stored
    rw [hlog]
    obtain ⟨f, hf⟩ := convertLine_block mY (unpack_low_yuv42Xp_to_uv_vector_sse2
      (mm_loadu_si128 mU s.chroma.1) (mm_loadu_si128 mV s.chroma.2)) s.y_line1 s.rgb_out_line1
    obtain ⟨g, hg⟩ := convertLine_block mY (unpack_high_yuv42Xp_to_uv_vector_sse2
      (mm_loadu_si128 mU s.chroma.1) (mm_loadu_si128 mV s.chroma.2)) (s.y_line1 + 16)
      (s.rgb_out_line1 + 64)
    unfold sixteenByTwo
    dsimp only
    rw [hf, hg]
    simp only [List.mem_append]
    by_cases hlow : n < 64
    · refine ⟨f n, Or.inl (Or.inl (Or.inl (Or.inr ?_)))⟩
      exact List.mem_map.mpr ⟨n, List.mem_range.mpr hlow, rfl⟩
    · refine ⟨g (n - 64), Or.inl (Or.inr ?_)⟩
      refine List.mem_map.mpr ⟨n - 64, List.mem_range.mpr (by omega), ?_⟩
      have hsum : s.rgb_out_line1 + BitVec.ofNat 32 64 + BitVec.ofNat 32 (n - 64) =
          s.rgb_out_line1 + BitVec.ofNat 32 n := by
        rw [BitVec.add_assoc, ← BitVec.ofNat_add, Nat.add_sub_cancel' (by omega)]
      exact Prod.ext hsum rfl

/-- The states of a line of sixteen pixels, whose count wraps in the first round. -/
def sixteenRounds (mY mU mV : Plane) (start : SseLines (BitVec 32 × BitVec 32)) (i : Nat) :
    SseLines (BitVec 32 × BitVec 32) :=
  (yuv420Round mY mU mV)^[i] start

/-- For a long time, the count is not one that ends the line or goes back. -/
theorem sixteenRounds_at (mY mU mV : Plane) (start : SseLines (BitVec 32 × BitVec 32))
    (hpixels : start.pixels_remaining_on_line = 16) (hrgb : start.rgb_out_line1 = 0) {i : Nat}
    (hi : i < 2 ^ 26) :
    (sixteenRounds mY mU mV start i).pixels_remaining_on_line = 16 - BitVec.ofNat 32 (32 * i) ∧
      (sixteenRounds mY mU mV start i).rgb_out_line1 = BitVec.ofNat 32 (128 * i) := by
  induction i with
  | zero => simp [sixteenRounds, hpixels, hrgb]
  | succ i ih =>
    obtain ⟨hp, hr⟩ := ih (by omega)
    have hnext : sixteenRounds mY mU mV start (i + 1) =
        yuv420Round mY mU mV (sixteenRounds mY mU mV start i) :=
      Function.iterate_succ_apply' _ _ _
    have hcount : (16 : BitVec 32) - BitVec.ofNat 32 (32 * i) - 32 =
        16 - BitVec.ofNat 32 (32 * (i + 1)) := by
      rw [Nat.mul_add_one, BitVec.ofNat_add]
      grind
    have hback : (16 : BitVec 32) - BitVec.ofNat 32 (32 * (i + 1)) ≠ 16 := by
      rw [← BitVec.toNat_inj.ne, BitVec.toNat_sub, toNat_ofNat_of_lt (by omega)]
      simp
      omega
    rw [hnext]
    unfold yuv420Round
    dsimp only
    have hp' : (sixteenRounds mY mU mV start i).pixels_remaining_on_line - 32 =
        16 - BitVec.ofNat 32 (32 * (i + 1)) := by rw [hp, hcount]
    rw [if_neg (by rw [hp']; exact hback)]
    refine ⟨hp', ?_⟩
    show (sixteenRounds mY mU mV start i).rgb_out_line1 + 64 + 64 = _
    rw [hr, Nat.mul_add_one, BitVec.ofNat_add]
    grind

/-- **Sixteen pixels wide**, YUV420 stores everywhere before its first line ends. -/
theorem linePairs_sixteen {nextChroma : BitVec 32 × BitVec 32 → BitVec 32 × BitVec 32}
    {t : SseLines (BitVec 32 × BitVec 32)} (hh : uHeight ≠ 0#32)
    (ht : linePairs fuel (yuv420Round mY mU mV) rs ys 16 uHeight (0, 0) nextChroma = some t)
    (a : BitVec 32) : t.Stored a := by
  have ha := a.isLt
  unfold linePairs at ht
  cases fuel with
  | zero => simp [loop, hh] at ht
  | succ fuel =>
    rw [loop_succ (by simpa using hh)] at ht
    obtain ⟨s, hs, hrest⟩ := Option.bind_eq_some_iff.mp ht
    obtain ⟨u, hu, rfl⟩ := Option.map_eq_some_iff.mp hs
    refine linePairs_stored (fun s => (yuv420Round_stored s a).1) ?_ hrest
    -- the round that `a` belongs to
    generalize hstart : (⟨0, ys, (0, 0), 0, rs, 16, uHeight, [], [], []⟩ :
      SseLines (BitVec 32 × BitVec 32)) = start at hu
    have hat (i : Nat) (hi : i < 2 ^ 26) := sixteenRounds_at mY mU mV start
      (by rw [← hstart]) (by rw [← hstart]) hi
    have hnext (i : Nat) : yuv420Round mY mU mV (sixteenRounds mY mU mV start i) =
        sixteenRounds mY mU mV start (i + 1) := (Function.iterate_succ_apply' _ _ _).symm
    have hcond (i : Nat) (hi : i < a.toNat / 128 + 1) :
        ((sixteenRounds mY mU mV start i).pixels_remaining_on_line != 0#32) = true := by
      rw [bne_iff_ne, (hat i (by omega)).1, ← BitVec.toNat_inj.ne, BitVec.toNat_sub,
        toNat_ofNat_of_lt (by omega)]
      simp
      omega
    obtain ⟨m, hm⟩ := loop_iterate (fun s => some (yuv420Round mY mU mV s))
      (s := sixteenRounds mY mU mV start) hcond (fun i _ => congrArg some (hnext i)) hu
    refine loop_invariant (fun s => s.Stored a) ?_ m _ u ?_ hm
    · intro y z hy hz
      exact Option.some.inj hz ▸ (yuv420Round_stored y a).1 hy
    · rw [← hnext]
      refine (yuv420Round_stored _ a).2 ⟨a.toNat % 128, Nat.mod_lt _ (by decide), ?_⟩
      rw [(hat _ (by omega)).2, ← BitVec.ofNat_add, Nat.div_add_mod]
      simp

end Sixteen

/-! ## When they end, and stay inside -/

/-- The rectangle is written and nothing else, and what is loaded is inside the planes. -/
structure Covers {κ : Type} (rs ys uWidth uHeight : BitVec 32) (inside : κ → Prop)
    (t : SseLines κ) :
    Prop where
  rect : ∀ a, lastWrite t.log a ≠ none ↔ Within rs (4 * uWidth.toNat) uHeight.toNat a
  yLoads : ∀ p ∈ t.yLoads, ∀ n < 16, Within ys uWidth.toNat uHeight.toNat (p + BitVec.ofNat 32 n)
  chromaLoads : ∀ p ∈ t.chromaLoads, inside p

/-- `YUV420ToBGRA32_SSE` ends, and covers. -/
def YuvCovers (rs ys us vs uWidth uHeight : BitVec 32) (mY mU mV : Plane) : Prop :=
  ∃ fuel t, YUV420ToBGRA32_SSE fuel rs mY mU mV ys us vs uWidth uHeight = some t ∧
    Covers rs ys uWidth uHeight (yuv420Inside us vs uWidth.toNat uHeight.toNat) t

/-- `NV12ToBGRA32_SSE` ends, and covers. -/
def Nv12Covers (rs ys us uWidth uHeight : BitVec 32) (mY mUV : Plane) : Prop :=
  ∃ fuel t, NV12ToBGRA32_SSE fuel rs mY mUV ys us uWidth uHeight = some t ∧
    Covers rs ys uWidth uHeight (nv12Inside us uWidth.toNat uHeight.toNat) t

section Iff

variable {rs ys us vs uWidth uHeight : BitVec 32} {mY mU mV mUV : Plane}

/-- Behind the last line of sixteen pixels there is an address outside. -/
theorem not_within_behind (hfits : Fits rs (4 * 16) uHeight.toNat) (hh : 0 < uHeight.toNat) :
    ¬ Within rs (4 * 16) uHeight.toNat (place rs (uHeight.toNat - 1) (4 * 16)) := by
  rintro ⟨i, hi, x, hx, heq⟩
  have hle : i * rs.toNat ≤ (uHeight.toNat - 1) * rs.toNat := Nat.mul_le_mul_right _ (by omega)
  have hnat := congrArg BitVec.toNat heq
  rw [hfits.toNat_place (by omega) (Nat.le_refl _), hfits.toNat_place hi (Nat.le_of_lt hx)] at hnat
  omega

theorem YUV420ToBGRA32_SSE_odd (hw : uWidth.toNat % 16 = 0) (hh : uHeight.toNat % 2 = 1)
    (fuel : Nat) :
    YUV420ToBGRA32_SSE fuel rs mY mU mV ys us vs uWidth uHeight = none := by
  unfold YUV420ToBGRA32_SSE
  rw [if_neg (umod_sixteen hw)]
  exact linePairs_odd yuv420Round_lines hh

theorem NV12ToBGRA32_SSE_odd (hw : uWidth.toNat % 16 = 0) (hh : uHeight.toNat % 2 = 1)
    (fuel : Nat) :
    NV12ToBGRA32_SSE fuel rs mY mUV ys us uWidth uHeight = none := by
  unfold NV12ToBGRA32_SSE
  rw [if_neg (umod_sixteen hw)]
  exact linePairs_odd (fun _ => rfl) hh

/-- Sixteen pixels wide, YUV420 does not stay in the rectangle. -/
theorem not_yuvCovers_sixteen (hw : uWidth.toNat = 16) (hh : 0 < uHeight.toNat)
    (hfits : Fits rs (4 * uWidth.toNat) uHeight.toNat) :
    ¬ YuvCovers rs ys us vs uWidth uHeight mY mU mV := by
  rintro ⟨fuel, t, ht, hcovers⟩
  have hwidth : uWidth = 16 := BitVec.toNat_inj.mp hw
  have hheight : uHeight ≠ 0#32 := by
    rintro rfl
    exact absurd hh (by decide)
  rw [hw] at hfits
  subst hwidth
  unfold YUV420ToBGRA32_SSE at ht
  rw [if_neg (by decide)] at ht
  obtain ⟨v, hv⟩ := linePairs_sixteen hheight ht (place rs (uHeight.toNat - 1) (4 * 16))
  refine not_within_behind hfits hh ((hcovers.rect _).mp ?_)
  exact fun hnone => lastWrite_eq_none_iff.mp hnone _ hv rfl

/-- **The SSE converters end and stay inside** exactly when the height is even and, for YUV420, the
width is not sixteen. -/
theorem sse_covers_iff (rs ys us vs uWidth uHeight : BitVec 32) (mY mU mV mUV : Plane)
    (hw : uWidth.toNat % 16 = 0) (hhpos : 0 < uHeight.toNat)
    (hfits : Fits rs (4 * uWidth.toNat) uHeight.toNat) :
    (YuvCovers rs ys us vs uWidth uHeight mY mU mV ↔ uHeight.toNat % 2 = 0 ∧ uWidth.toNat ≠ 16) ∧
      (Nv12Covers rs ys us uWidth uHeight mY mUV ↔ uHeight.toNat % 2 = 0) := by
  constructor
  · constructor
    · intro h
      refine ⟨?_, fun hsixteen => not_yuvCovers_sixteen hsixteen hhpos hfits h⟩
      by_contra hodd
      obtain ⟨fuel, t, ht, -⟩ := h
      rw [YUV420ToBGRA32_SSE_odd hw (by omega)] at ht
      exact absurd ht (by simp)
    · rintro ⟨heven, hsixteen⟩
      obtain ⟨t, ht, hpaints, hyLoads, hchromaLoads⟩ := YUV420ToBGRA32_SSE_total rs ys us vs mY mU
        mV hw hsixteen heven
        (Nat.le_max_left uWidth.toNat uHeight.toNat) (Nat.le_max_right _ _)
      exact ⟨_, t, ht, hpaints.lastWrite_ne_none_iff, hyLoads, hchromaLoads⟩
  · constructor
    · intro h
      by_contra hodd
      obtain ⟨fuel, t, ht, -⟩ := h
      rw [NV12ToBGRA32_SSE_odd hw (by omega)] at ht
      exact absurd ht (by simp)
    · intro heven
      obtain ⟨t, ht, hpaints, hyLoads, hchromaLoads⟩ := NV12ToBGRA32_SSE_total rs ys us mY mUV hw
        heven
        (Nat.le_max_left uWidth.toNat uHeight.toNat) (Nat.le_max_right _ _)
      exact ⟨_, t, ht, hpaints.lastWrite_ne_none_iff, hyLoads, hchromaLoads⟩

theorem sse_covers_iff_grey :
    YuvCovers 192 48 24 24 48 2 (fun _ => 128) (fun _ => 90) (fun _ => 90) ∧
      Nv12Covers 192 48 48 48 2 (fun _ => 128) fun _ => 90 := by
  have hyuv :=
    sse_covers_iff 192 48 24 24 48 2 (fun _ => 128) (fun _ => 90) (fun _ => 90) (fun _ => 90)
    (by decide) (by decide) (by decide)
  have hnv12 :=
    sse_covers_iff 192 48 48 24 48 2 (fun _ => 128) (fun _ => 90) (fun _ => 90) (fun _ => 90)
    (by decide) (by decide) (by decide)
  exact ⟨hyuv.1.mpr (by decide), hnv12.2.mpr (by decide)⟩

/-- A single line of thirty-two pixels is converted for ever. -/
theorem sse_single_line :
    ¬ ∀ (rs ys us vs uWidth uHeight : BitVec 32) (mY mU mV mUV : Plane), uWidth.toNat % 16 = 0 →
      0 < uWidth.toNat → 0 < uHeight.toNat → Fits rs (4 * uWidth.toNat) uHeight.toNat →
      YuvCovers rs ys us vs uWidth uHeight mY mU mV ∧
        Nv12Covers rs ys us uWidth uHeight mY mUV := by
  intro h
  obtain ⟨⟨fuel, t, ht, -⟩, -⟩ :=
    h 128 32 16 16 32 1 (fun _ => 0) (fun _ => 0) (fun _ => 0) (fun _ => 0)
    (by decide) (by decide) (by decide) (by decide)
  rw [YUV420ToBGRA32_SSE_odd (by decide) (by decide)] at ht
  exact absurd ht (by simp)

end Iff

end TiraRdp.ImageProcess
