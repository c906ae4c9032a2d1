import TiraRdp.Rdp.Gfx

/-!
# `rdpgfx`: the graphics channel of the projector

The handlers of `Rdp/src/channels/rdpgfx/client/rdpgfx_main.c` and `rdpgfx_codec.c`, and
`rdpgfx_recv_pdu` over them (`rdpgfxRecvPdu`). Most read fields and an array and hand them to the
context (`GfxHandler.ofReader`); the others do something more, and are written out.

Not modelled: what is logged, and what `rdpgfx_read_h264_metablock` does to its arrays.
-/

namespace TiraRdp

open Lib GfxField

/-! ## Fields and an array -/

def rdpgfxRecvEvictCacheEntryPdu : GfxHandler :=
  .ofReader .EVICTCACHEENTRY (GfxLayout.reader ⟨2, [UINT16], none, rfl⟩)

def rdpgfxRecvCacheImportReplyPdu : GfxHandler :=
  .ofReader .CACHEIMPORTREPLY (GfxLayout.reader ⟨2, [], some UINT16, rfl⟩)

def rdpgfxRecvCreateSurfacePdu : GfxHandler :=
  .ofReader .CREATESURFACE (GfxLayout.reader ⟨7, [UINT16, UINT16, UINT16, UINT8], none, rfl⟩)

def rdpgfxRecvDeleteSurfacePdu : GfxHandler :=
  .ofReader .DELETESURFACE (GfxLayout.reader ⟨2, [UINT16], none, rfl⟩)

def rdpgfxRecvDeleteEncodingContextPdu : GfxHandler :=
  .ofReader .DELETEENCODINGCONTEXT (GfxLayout.reader ⟨6, [UINT16, UINT32], none, rfl⟩)

def rdpgfxRecvSolidFillPdu : GfxHandler :=
  .ofReader .SOLIDFILL (GfxLayout.reader ⟨8, [UINT16, COLOR32], some RECT16, rfl⟩)

def rdpgfxRecvSurfaceToSurfacePdu : GfxHandler :=
  .ofReader .SURFACETOSURFACE (GfxLayout.reader ⟨14, [UINT16, UINT16, RECT16], some POINT16, rfl⟩)

def rdpgfxRecvSurfaceToCachePdu : GfxHandler :=
  .ofReader .SURFACETOCACHE (GfxLayout.reader ⟨20, [UINT16, UINT64, UINT16, RECT16], none, rfl⟩)

def rdpgfxRecvCacheToSurfacePdu : GfxHandler :=
  .ofReader .CACHETOSURFACE (GfxLayout.reader ⟨6, [UINT16, UINT16], some POINT16, rfl⟩)

def rdpgfxRecvMapSurfaceToOutputPdu : GfxHandler :=
  .ofReader .MAPSURFACETOOUTPUT (GfxLayout.reader ⟨12, [UINT16, UINT16, UINT32, UINT32], none, rfl⟩)

def rdpgfxRecvMapSurfaceToWindowPdu : GfxHandler :=
  .ofReader .MAPSURFACETOWINDOW (GfxLayout.reader ⟨18, [UINT16, UINT64, UINT32, UINT32], none, rfl⟩)

/-! ## The others -/

/-- The context hears nothing of it. -/
def rdpgfxRecvCapsConfirmPdu : GfxHandler where
  reader := GfxLayout.reader ⟨12, [UINT32, UINT32, UINT32], none, rfl⟩
  after _ gfx _ := (CHANNEL_RC_OK, gfx)
  fine := GfxHandler.ignore.fine

/-- The frame counts as not acknowledged whatever the context answers. -/
def rdpgfxRecvStartFramePdu : GfxHandler where
  reader := GfxLayout.reader ⟨8, [UINT32, UINT32], none, rfl⟩
  after env gfx pdu :=
    (env.context .STARTFRAME pdu,
      { gfx with UnacknowledgedFrames := u32 (gfx.UnacknowledgedFrames + 1) })
  fine _ _ := rfl

def rdpgfxRecvEndFramePdu : GfxHandler where
  reader := endFrameReader
  after env gfx pdu :=
    let error := env.context .ENDFRAME pdu
    if error = CHANNEL_RC_OK then endFrame env gfx pdu.frameId else (error, gfx)
  fine := endFrame_fine

/-! ## A bitmap and its H.264 metablock -/

def RDPGFX_CODECID_H264 : Nat := 0x000B

/-- `rdpgfx_read_h264_metablock`. The lengths are `UINT32` products; a rectangle is asked for one by
one, a quality is not. -/
def rdpgfxReadH264Metablock (env : GfxEnv) (s : wStream) : Except Nat (List Nat × wStream) :=
  if s.GetRemainingLength < 4 then .error ERROR_INVALID_DATA
  else
    let (numRegionRects, s) := s.Read 4
    if s.GetRemainingLength < u32 (numRegionRects * 8) then .error ERROR_INVALID_DATA
    else if env.malloc then
      match readFields (List.replicate numRegionRects RECT16) s with
      | .error e => .error e
      | .ok (regionRects, s) =>
        if s.GetRemainingLength < u32 (numRegionRects * 2) then .error ERROR_INVALID_DATA
        else
          let (quantQualityVals, s) := s.ReadAll (List.replicate (numRegionRects * 2) 1)
          .ok (regionRects ++ quantQualityVals, s)
    else .error CHANNEL_RC_NO_MEMORY

/-- `rdpgfx_decode`: what is handed to the context of a bitmap. -/
def rdpgfxDecode (env : GfxEnv) (codecId : Nat) (fields : List Nat) (data : Bytes) :
    Except Nat GfxPdu :=
  if codecId = RDPGFX_CODECID_H264 then
    if env.malloc then
      match rdpgfxReadH264Metablock env (.ofBuffer data) with
      | .error e => .error e
      | .ok (metablock, t) => .ok ⟨fields, metablock, t.Pointer t.GetRemainingLength⟩
    else .error CHANNEL_RC_NO_MEMORY
  else .ok ⟨fields, [], data⟩

def readWireToSurface1 (env : GfxEnv) (s : wStream) : Except Nat (GfxPdu × wStream) :=
  if s.GetRemainingLength < 17 then .error ERROR_INVALID_DATA
  else
    let (surfaceId, s) := s.Read 2
    let (codecId, s) := s.Read 2
    let (pixelFormat, s) := s.Read 1
    match RECT16.read s with
    | .error e => .error e
    | .ok (destRect, s) =>
      let (bitmapDataLength, s) := s.Read 4
      if bitmapDataLength > s.GetRemainingLength then .error ERROR_INVALID_DATA
      else
        match rdpgfxDecode env codecId (surfaceId :: codecId :: pixelFormat :: destRect)
            (s.Pointer bitmapDataLength) with
        | .error e => .error e
        | .ok pdu => .ok (pdu, s.Seek bitmapDataLength)

/-- No check stands in front of `Stream_Seek(s, bitmapDataLength)`. -/
def readWireToSurface2 (s : wStream) : Except Nat (GfxPdu × wStream) :=
  if s.GetRemainingLength < 13 then .error ERROR_INVALID_DATA
  else
    let (fields, s) := s.ReadAll [2, 2, 4, 1]
    let (bitmapDataLength, s) := s.Read 4
    .ok (⟨fields, [], s.Pointer bitmapDataLength⟩, s.Seek bitmapDataLength)

/-- `pad`, an `int` compared as a `size_t`, is what is left of 340 bytes. -/
def readResetGraphics (env : GfxEnv) (s : wStream) : Except Nat (GfxPdu × wStream) :=
  if s.GetRemainingLength < 12 then .error ERROR_INVALID_DATA
  else
    let (width, s) := s.Read 4
    let (height, s) := s.Read 4
    let (monitorCount, s) := s.Read 4
    if s.GetRemainingLength < u32 (monitorCount * 20) then .error ERROR_INVALID_DATA
    else if env.calloc monitorCount 20 then
      let (monitors, s) := s.ReadAll (List.replicate (monitorCount * 5) 4)
      let pad := subU32 340 (RDPGFX_HEADER_SIZE + 12 + u32 (monitorCount * 20))
      if s.GetRemainingLength < pad then .error CHANNEL_RC_NO_MEMORY
      else .ok (⟨[width, height, monitorCount], monitors, []⟩, s.Seek pad)
    else .error CHANNEL_RC_NO_MEMORY

/-! ## What they take -/

/-- Ten bytes a rectangle: the rectangle and its quality. -/
def MetablockFits (s : wStream) : Prop :=
  4 + (s.Read 4).1 * 10 ≤ s.GetRemainingLength

theorem metablock_ok {env : GfxEnv} {s t : wStream} {metablock : List Nat} (h : s.Within)
    (hread : rdpgfxReadH264Metablock env s = .ok (metablock, t)) : MetablockFits s := by
  unfold rdpgfxReadH264Metablock at hread
  dsimp only [wStream.Read] at hread
  split_ifs at hread with hlen hcheck hmalloc
  rw [Nat.not_lt] at hlen
  have hremaining := h.remaining_seek hlen
  split at hread
  · simp at hread
  rename_i regionRects u hrects
  have hall : ∀ f ∈ List.replicate (ofLe (s.Pointer 4)) RECT16, f.check = f.size := by
    intro f hf
    rw [List.eq_of_mem_replicate hf]
    rfl
  have hsizes := sizes_le_of_readFields hall (h.seek hlen) hrects
  obtain ⟨values, hvalues⟩ := readFields_ok (h.seek hlen) hsizes
  rw [hrects] at hvalues
  obtain ⟨-, rfl⟩ := Prod.mk.inj (Except.ok.inj hvalues)
  rw [(h.seek hlen).remaining_seek hsizes, hremaining] at hread
  rw [sizes_replicate, hremaining] at hsizes
  rw [sizes_replicate] at hread
  have hrect : RECT16.size = 8 := rfl
  rw [hrect] at hsizes hread
  split_ifs at hread with hquant
  have hlt := h.length_lt
  have hle := h.remaining
  rw [u32_of_lt (by omega)] at hquant
  show 4 + ofLe (s.Pointer 4) * 10 ≤ s.GetRemainingLength
  omega

theorem metablock_fine {s : wStream} (h : s.Within) (hfits : MetablockFits s) :
    ∃ metablock t, rdpgfxReadH264Metablock .fine s = .ok (metablock, t) := by
  have hfits : 4 + ofLe (s.Pointer 4) * 10 ≤ s.GetRemainingLength := hfits
  have hlen : 4 ≤ s.GetRemainingLength := by omega
  have hremaining := h.remaining_seek hlen
  have hlt := h.length_lt
  have hle := h.remaining
  have hrect : sizes (List.replicate (ofLe (s.Pointer 4)) RECT16) = ofLe (s.Pointer 4) * 8 :=
    sizes_replicate _ _
  have hsizes : sizes (List.replicate (ofLe (s.Pointer 4)) RECT16) ≤
      (s.Seek 4).GetRemainingLength := by
    omega
  obtain ⟨regionRects, hrects⟩ := readFields_ok (h.seek hlen) hsizes
  have hrest := (h.seek hlen).remaining_seek hsizes
  unfold rdpgfxReadH264Metablock
  rw [if_neg (by omega)]
  dsimp only [wStream.Read]
  rw [u32_of_lt (by omega), u32_of_lt (by omega), if_neg (by omega), if_pos (by rfl), hrects]
  dsimp only
  rw [if_neg (by omega)]
  exact ⟨_, _, rfl⟩

theorem ofBuffer_within {data : Bytes} (h : data.length < 2 ^ 31) :
    (wStream.ofBuffer data).Within :=
  ⟨Nat.zero_le _, h⟩

/-- Any bitmap is handed on, an H.264 one if its metablock is there. -/
def DecodeFits (codecId : Nat) (data : Bytes) : Prop :=
  codecId = RDPGFX_CODECID_H264 → MetablockFits (.ofBuffer data)

theorem decode_ok {env : GfxEnv} {codecId : Nat} {fields : List Nat} {data : Bytes} {pdu : GfxPdu}
    (h : data.length < 2 ^ 31) (hread : rdpgfxDecode env codecId fields data = .ok pdu) :
    DecodeFits codecId data := by
  intro hcodec
  unfold rdpgfxDecode at hread
  split_ifs at hread with hmalloc
  split at hread
  · simp at hread
  · rename_i hmetablock
    exact metablock_ok (ofBuffer_within h) hmetablock

theorem decode_fine {codecId : Nat} (fields : List Nat) {data : Bytes} (h : data.length < 2 ^ 31)
    (hfits : DecodeFits codecId data) :
    ∃ pdu, rdpgfxDecode .fine codecId fields data = .ok pdu := by
  unfold rdpgfxDecode
  split_ifs with hcodec hmalloc
  · obtain ⟨metablock, t, hmetablock⟩ := metablock_fine (ofBuffer_within h) (hfits hcodec)
    rw [hmetablock]
    exact ⟨_, rfl⟩
  · exact absurd rfl hmalloc
  · exact ⟨_, rfl⟩

/-- The bitmap of a PDU whose fields are there: its length stands behind thirteen bytes. -/
theorem readWireToSurface1_eq (env : GfxEnv) {s : wStream} (h : s.Within)
    (hlen : 17 ≤ s.GetRemainingLength) :
    readWireToSurface1 env s =
      if ((s.Seek 13).Read 4).1 > (s.Seek 17).GetRemainingLength then .error ERROR_INVALID_DATA
      else
        match rdpgfxDecode env ((s.Seek 2).Read 2).1
            ((s.Read 2).1 :: ((s.Seek 2).Read 2).1 :: ((s.Seek 4).Read 1).1 ::
              ((s.Seek 5).ReadAll RECT16.widths).1)
            ((s.Seek 17).Pointer ((s.Seek 13).Read 4).1) with
        | .error e => .error e
        | .ok pdu => .ok (pdu, (s.Seek 17).Seek ((s.Seek 13).Read 4).1) := by
  have h5 : (s.Seek 5).Within := h.seek (by omega)
  have hrect : RECT16.size ≤ (s.Seek 5).GetRemainingLength := by
    rw [h.remaining_seek (by omega)]
    show 8 ≤ _
    omega
  have hread : RECT16.read (s.Seek 5) = .ok (((s.Seek 5).ReadAll RECT16.widths).1, s.Seek 13) := by
    rw [read_ok h5 hrect, wStream.Seek_Seek]
    rfl
  unfold readWireToSurface1
  rw [if_neg (Nat.not_lt.mpr hlen)]
  dsimp only [wStream.Read]
  simp only [wStream.Seek_Seek, Nat.reduceAdd, hread]

def wireToSurface1Reader : GfxReader where
  read := readWireToSurface1
  Fits s :=
    17 + ((s.Seek 13).Read 4).1 ≤ s.GetRemainingLength ∧
      DecodeFits ((s.Seek 2).Read 2).1 ((s.Seek 17).Pointer ((s.Seek 13).Read 4).1)
  ok := by
    intro env s pdu t h hread
    have hlen : 17 ≤ s.GetRemainingLength := by
      by_contra hlt
      rw [readWireToSurface1, if_pos (Nat.not_le.mp hlt)] at hread
      simp at hread
    rw [readWireToSurface1_eq env h hlen] at hread
    split_ifs at hread with hbitmap
    split at hread
    · simp at hread
    · rename_i hdecode
      obtain ⟨-, rfl⟩ := Prod.mk.inj (Except.ok.inj hread)
      rw [h.remaining_seek hlen] at hbitmap
      refine ⟨⟨by omega, decode_ok ?_ hdecode⟩, rfl⟩
      exact Nat.lt_of_le_of_lt ((s.Seek 17).pointer_length_le _) h.length_lt
  takes := by
    rintro s h ⟨hbitmap, hdecode⟩
    have hlen : 17 ≤ s.GetRemainingLength := by omega
    have hlt :=
      Nat.lt_of_le_of_lt ((s.Seek 17).pointer_length_le ((s.Seek 13).Read 4).1) h.length_lt
    obtain ⟨pdu, hpdu⟩ := decode_fine ((s.Read 2).1 :: ((s.Seek 2).Read 2).1 ::
      ((s.Seek 4).Read 1).1 :: ((s.Seek 5).ReadAll RECT16.widths).1) hlt hdecode
    refine ⟨pdu, (s.Seek 17).Seek ((s.Seek 13).Read 4).1, ?_⟩
    rw [readWireToSurface1_eq .fine h hlen, h.remaining_seek hlen, if_neg (by omega), hpdu]

def wireToSurface2Reader : GfxReader where
  read _ := readWireToSurface2
  Fits s := 13 ≤ s.GetRemainingLength
  ok := by
    intro env s pdu t h hread
    unfold readWireToSurface2 at hread
    split_ifs at hread with hlen
    obtain ⟨-, rfl⟩ := Prod.mk.inj (Except.ok.inj hread)
    exact ⟨Nat.not_lt.mp hlen, by simp only [wStream.Seek_buffer]⟩
  takes := by
    intro s h hlen
    unfold readWireToSurface2
    rw [if_neg (Nat.not_lt.mpr hlen)]
    exact ⟨_, _, rfl⟩

/-- The padding of more than sixteen monitors is negative, and asks for more than there can be. -/
theorem pad_eq {n : Nat} (h : n * 20 < 2 ^ 31) :
    subU32 340 (RDPGFX_HEADER_SIZE + 12 + u32 (n * 20)) =
      if n ≤ 16 then 320 - n * 20 else 2 ^ 32 + 320 - n * 20 := by
  have hword : u32 (n * 20) = n * 20 := u32_of_lt (by omega)
  rw [hword]
  unfold subU32 u32 RDPGFX_HEADER_SIZE
  split_ifs <;> omega

/-- The monitors, as far as there is memory for them. -/
theorem readAll_monitors {s : wStream} (h : s.Within) {n : Nat}
    (hn : n * 20 ≤ s.GetRemainingLength) :
    (s.ReadAll (List.replicate (n * 5) 4)).2 = s.Seek (n * 20) := by
  have hsum : (List.replicate (n * 5) 4).sum = n * 20 := by
    rw [List.sum_replicate_nat]
    omega
  rw [h.readAll (by omega), hsum]

def resetGraphicsReader : GfxReader where
  read := readResetGraphics
  Fits s := 332 ≤ s.GetRemainingLength ∧ ((s.Seek 8).Read 4).1 ≤ 16
  ok := by
    intro env s pdu t h hread
    unfold readResetGraphics at hread
    dsimp only [wStream.Read] at hread
    simp only [wStream.Seek_Seek, Nat.reduceAdd] at hread
    split_ifs at hread with hlen hcount hcalloc hpad
    obtain ⟨-, rfl⟩ := Prod.mk.inj (Except.ok.inj hread)
    have h12 := h.seek (Nat.not_lt.mp hlen)
    have hremaining := h.remaining_seek (Nat.not_lt.mp hlen)
    have hlt := h.length_lt
    have hle := h.remaining
    have hword := of_decide_eq_true (Bool.and_eq_true_iff.mp hcalloc).2
    rw [u32_of_lt hword, hremaining, Nat.not_lt] at hcount
    have hmonitors := readAll_monitors h12 (hremaining.symm ▸ hcount)
    rw [hmonitors, h12.remaining_seek (hremaining.symm ▸ hcount), hremaining,
      pad_eq (by omega)] at hpad
    refine ⟨?_, by rw [hmonitors]; rfl⟩
    show 332 ≤ s.GetRemainingLength ∧ ofLe ((s.Seek 8).Pointer 4) ≤ 16
    split_ifs at hpad <;> omega
  takes := by
    rintro s h ⟨hlen, hcount⟩
    have hcount : ofLe ((s.Seek 8).Pointer 4) ≤ 16 := hcount
    have h12 : (s.Seek 12).Within := h.seek (by omega)
    have hremaining := h.remaining_seek (show 12 ≤ s.GetRemainingLength by omega)
    have hmonitors := readAll_monitors h12 (n := ofLe ((s.Seek 8).Pointer 4)) (by omega)
    have hword : u32 (ofLe ((s.Seek 8).Pointer 4) * 20) = ofLe ((s.Seek 8).Pointer 4) * 20 :=
      u32_of_lt (by omega)
    have hcalloc : GfxEnv.fine.calloc (ofLe ((s.Seek 8).Pointer 4)) 20 = true :=
      Bool.and_eq_true_iff.mpr ⟨rfl, decide_eq_true (by omega)⟩
    unfold readResetGraphics
    dsimp only [wStream.Read]
    simp only [wStream.Seek_Seek, Nat.reduceAdd]
    rw [if_neg (by omega), if_neg (by omega), if_pos hcalloc, hmonitors,
      h12.remaining_seek (by omega), pad_eq (by omega), if_pos hcount, if_neg (by omega)]
    exact ⟨_, _, rfl⟩

/-! ## `rdpgfx_recv_pdu` -/

def rdpgfxRecvWireToSurface1Pdu : GfxHandler := .ofReader .WIRETOSURFACE_1 wireToSurface1Reader

def rdpgfxRecvWireToSurface2Pdu : GfxHandler := .ofReader .WIRETOSURFACE_2 wireToSurface2Reader

def rdpgfxRecvResetGraphicsPdu : GfxHandler := .ofReader .RESETGRAPHICS resetGraphicsReader

/-- The handler of each command. -/
def rdpgfxCommands : GfxCmdId → GfxHandler
  | .WIRETOSURFACE_1 => rdpgfxRecvWireToSurface1Pdu
  | .WIRETOSURFACE_2 => rdpgfxRecvWireToSurface2Pdu
  | .DELETEENCODINGCONTEXT => rdpgfxRecvDeleteEncodingContextPdu
  | .SOLIDFILL => rdpgfxRecvSolidFillPdu
  | .SURFACETOSURFACE => rdpgfxRecvSurfaceToSurfacePdu
  | .SURFACETOCACHE => rdpgfxRecvSurfaceToCachePdu
  | .CACHETOSURFACE => rdpgfxRecvCacheToSurfacePdu
  | .EVICTCACHEENTRY => rdpgfxRecvEvictCacheEntryPdu
  | .CREATESURFACE => rdpgfxRecvCreateSurfacePdu
  | .DELETESURFACE => rdpgfxRecvDeleteSurfacePdu
  | .STARTFRAME => rdpgfxRecvStartFramePdu
  | .ENDFRAME => rdpgfxRecvEndFramePdu
  | .RESETGRAPHICS => rdpgfxRecvResetGraphicsPdu
  | .MAPSURFACETOOUTPUT => rdpgfxRecvMapSurfaceToOutputPdu
  | .CACHEIMPORTREPLY => rdpgfxRecvCacheImportReplyPdu
  | .CAPSCONFIRM => rdpgfxRecvCapsConfirmPdu
  | .MAPSURFACETOWINDOW => rdpgfxRecvMapSurfaceToWindowPdu

def rdpgfxRecvPdu : GfxEnv → RdpgfxPlugin → wStream → Except Nat wStream × RdpgfxPlugin :=
  recvPdu rdpgfxCommands

end TiraRdp
