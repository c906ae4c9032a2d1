import TiraRdp.Rdp.Stream

/-!
# The graphics channel: what both its copies share

`rdpgfx` is the graphics channel of the projector, `tiragfx` the stripped copy of it that the
redirector runs. Here is what is written out twice in the source: reading a header and fields, the
frame acknowledgement, `recv_pdu` around the handlers of the commands.

A handler checks the remaining length once for its fields and once for an array, and then reads
without looking (`GfxLayout`). `GfxReader` is what a handler reads with the lengths at which it
takes its PDU; that both agree, and that it leaves the buffer alone, are fields of it.

Environment of a call: what the callbacks of the context answer, whether memory is given, and what
the `Write` of the channel answers. Errors are the `UINT` of the source, zero being `CHANNEL_RC_OK`.

Result: `recv_pdu` answers `CHANNEL_RC_OK` only for a PDU that `Accepts`, and then stands
`pduLength` behind where it began, modulo `2 ^ 32` (`recvPdu_ok`); and where nothing fails around
it, it answers so for every such PDU (`recvPdu_accepts`).
-/

namespace TiraRdp

open Lib

def RDPGFX_HEADER_SIZE : Nat := 8

def QUEUE_DEPTH_UNAVAILABLE : Nat := 0
def SUSPEND_FRAME_ACKNOWLEDGEMENT : Nat := 0xFFFFFFFF

/-- `RDPGFX_CMDID_*`: the commands that `recv_pdu` knows. -/
inductive GfxCmdId where
  | WIRETOSURFACE_1
  | WIRETOSURFACE_2
  | DELETEENCODINGCONTEXT
  | SOLIDFILL
  | SURFACETOSURFACE
  | SURFACETOCACHE
  | CACHETOSURFACE
  | EVICTCACHEENTRY
  | CREATESURFACE
  | DELETESURFACE
  | STARTFRAME
  | ENDFRAME
  | RESETGRAPHICS
  | MAPSURFACETOOUTPUT
  | CACHEIMPORTREPLY
  | CAPSCONFIRM
  | MAPSURFACETOWINDOW
  deriving Repr, DecidableEq

def GfxCmdId.ofWord : Nat → Option GfxCmdId
  | 0x0001 => some .WIRETOSURFACE_1
  | 0x0002 => some .WIRETOSURFACE_2
  | 0x0003 => some .DELETEENCODINGCONTEXT
  | 0x0004 => some .SOLIDFILL
  | 0x0005 => some .SURFACETOSURFACE
  | 0x0006 => some .SURFACETOCACHE
  | 0x0007 => some .CACHETOSURFACE
  | 0x0008 => some .EVICTCACHEENTRY
  | 0x0009 => some .CREATESURFACE
  | 0x000A => some .DELETESURFACE
  | 0x000B => some .STARTFRAME
  | 0x000C => some .ENDFRAME
  | 0x000E => some .RESETGRAPHICS
  | 0x000F => some .MAPSURFACETOOUTPUT
  | 0x0011 => some .CACHEIMPORTREPLY
  | 0x0013 => some .CAPSCONFIRM
  | 0x0015 => some .MAPSURFACETOWINDOW
  | _ => none

/-- `RDPGFX_HEADER`. -/
structure GfxHeader where
  cmdId : Nat
  flags : Nat
  pduLength : Nat
  deriving Repr, DecidableEq

/-- `rdpgfx_write_header`. -/
def GfxHeader.bytes (header : GfxHeader) : Bytes :=
  le16 header.cmdId ++ le16 header.flags ++ le32 header.pduLength

/-- `RDPGFX_FRAME_ACKNOWLEDGE_PDU`. -/
structure FrameAcknowledge where
  queueDepth : Nat
  frameId : Nat
  totalFramesDecoded : Nat
  deriving Repr, DecidableEq

/-- The PDU of an acknowledgement, its header in front (`RDPGFX_CMDID_FRAMEACKNOWLEDGE`). -/
def FrameAcknowledge.bytes (ack : FrameAcknowledge) : Bytes :=
  GfxHeader.bytes ⟨0x000D, 0, RDPGFX_HEADER_SIZE + 12⟩ ++
    (le32 ack.queueDepth ++ le32 ack.frameId ++ le32 ack.totalFramesDecoded)

/-- What a PDU holds behind its header: its fields, the elements of its array, and its data. -/
structure GfxPdu where
  fields : List Nat
  elements : List Nat
  data : Bytes
  deriving Repr, DecidableEq

/-- `RDPGFX_PLUGIN`, and what was given to the `Write` of its channel. -/
structure RdpgfxPlugin where
  UnacknowledgedFrames : Nat
  TotalDecodedFrames : Nat
  suspendFrameAcks : Bool
  written : List Bytes
  deriving Repr, DecidableEq

/-- What a call of `recv_pdu` meets. -/
structure GfxEnv where
  /-- what the context answers to a command; zero also where it has no callback for it -/
  context : GfxCmdId → GfxPdu → Nat
  malloc : Bool
  Write : Nat

/-- Nothing fails. -/
def GfxEnv.fine : GfxEnv where
  context := fun _ _ => CHANNEL_RC_OK
  malloc := true
  Write := CHANNEL_RC_OK

/-- `calloc` gives no more memory than there are addresses. -/
def GfxEnv.calloc (env : GfxEnv) (n size : Nat) : Bool := env.malloc && decide (n * size < 2 ^ 32)

/-! ## Fields -/

/-- The types that the handlers read. -/
inductive GfxField where
  | UINT8
  | UINT16
  | UINT32
  | UINT64
  | COLOR32
  | RECT16
  | POINT16
  deriving Repr, DecidableEq

namespace GfxField

/-- The widths of the numbers it consists of. -/
def widths : GfxField → List Nat
  | UINT8 => [1]
  | UINT16 => [2]
  | UINT32 => [4]
  | UINT64 => [8]
  | COLOR32 => [1, 1, 1, 1]
  | RECT16 => [2, 2, 2, 2]
  | POINT16 => [2, 2]

def size (f : GfxField) : Nat := f.widths.sum

/-- How many bytes its reader asks for before it reads: `rdpgfx_read_color32`, `rdpgfx_read_rect16`
and `rdpgfx_read_point16` ask for all they need, `Stream_Read_UINT16` for nothing. -/
def check : GfxField → Nat
  | COLOR32 => 4
  | RECT16 => 8
  | POINT16 => 4
  | _ => 0

theorem check_le (f : GfxField) : f.check ≤ f.size := by
  cases f <;> decide

def read (f : GfxField) (s : wStream) : Except Nat (List Nat × wStream) :=
  if s.GetRemainingLength < f.check then .error ERROR_INVALID_DATA
  else .ok (s.ReadAll f.widths)

/-- The fields of a PDU, in order; also the elements of an array, one after the other. -/
def readFields : List GfxField → wStream → Except Nat (List Nat × wStream)
  | [], s => .ok ([], s)
  | f :: fs, s =>
    match f.read s with
    | .error e => .error e
    | .ok (values, t) =>
      match readFields fs t with
      | .error e => .error e
      | .ok (rest, u) => .ok (values ++ rest, u)

def sizes (fs : List GfxField) : Nat := (fs.map size).sum

@[simp] theorem sizes_cons (f : GfxField) (fs : List GfxField) :
    sizes (f :: fs) = f.size + sizes fs := by
  unfold sizes
  rw [List.map_cons, List.sum_cons]

theorem sizes_replicate (n : Nat) (f : GfxField) : sizes (List.replicate n f) = n * f.size := by
  unfold sizes
  rw [List.map_replicate, List.sum_replicate_nat]

theorem readFields_buffer {fs : List GfxField} {s t : wStream} {values : List Nat}
    (h : readFields fs s = .ok (values, t)) : t.buffer = s.buffer := by
  induction fs generalizing s values with
  | nil =>
    obtain ⟨-, rfl⟩ := Prod.mk.inj (Except.ok.inj h)
    rfl
  | cons f fs ih =>
    unfold readFields read at h
    split_ifs at h with hcheck
    dsimp only at h
    split at h
    · simp at h
    · rename_i rest u hrest
      obtain ⟨-, rfl⟩ := Prod.mk.inj (Except.ok.inj h)
      rw [ih hrest, wStream.ReadAll_buffer]

/-- Behind a check of all that it needs, a reader reads it. -/
theorem read_ok {f : GfxField} {s : wStream} (h : s.Within) (hf : f.size ≤ s.GetRemainingLength) :
    f.read s = .ok ((s.ReadAll f.widths).1, s.Seek f.size) := by
  have hcheck : ¬ s.GetRemainingLength < f.check := by
    have hle := f.check_le
    omega
  rw [read, if_neg hcheck, size, ← h.readAll hf]

/-- **No reader behind a check fails**, and together they read what was checked. -/
theorem readFields_ok {fs : List GfxField} {s : wStream} (h : s.Within)
    (hsize : sizes fs ≤ s.GetRemainingLength) :
    ∃ values, readFields fs s = .ok (values, s.Seek (sizes fs)) := by
  induction fs generalizing s with
  | nil => exact ⟨[], by rw [readFields, sizes, List.map_nil, List.sum_nil, h.seek_zero]⟩
  | cons f fs ih =>
    rw [sizes_cons] at hsize ⊢
    have hf : f.size ≤ s.GetRemainingLength := by omega
    have hrest : sizes fs ≤ (s.Seek f.size).GetRemainingLength := by
      rw [h.remaining_seek hf]
      omega
    obtain ⟨rest, hrest⟩ := ih (h.seek hf) hrest
    refine ⟨(s.ReadAll f.widths).1 ++ rest, ?_⟩
    rw [readFields, read_ok h hf]
    dsimp only
    rw [hrest, wStream.Seek_Seek]

/-- Fields that are each asked for are read only if they are all there. -/
theorem sizes_le_of_readFields {fs : List GfxField} (hcheck : ∀ f ∈ fs, f.check = f.size)
    {s t : wStream} {values : List Nat} (h : s.Within) (hread : readFields fs s = .ok (values, t)) :
    sizes fs ≤ s.GetRemainingLength := by
  induction fs generalizing s t values with
  | nil => exact Nat.zero_le _
  | cons f fs ih =>
    have hf := hcheck f List.mem_cons_self
    unfold readFields read at hread
    split_ifs at hread with hlt
    rw [hf, Nat.not_lt] at hlt
    dsimp only at hread
    split at hread
    · simp at hread
    · rename_i rest u hrest
      have hseek : (s.ReadAll f.widths).2 = s.Seek f.size := h.readAll hlt
      rw [hseek] at hrest
      have hle := ih (fun g hg => hcheck g (List.mem_cons_of_mem f hg)) (h.seek hlt) hrest
      rw [h.remaining_seek hlt] at hle
      rw [sizes_cons]
      omega

end GfxField

/-! ## Handlers -/

/-- How the handler of a command reads: the length that it checks, the fields, and what the array
behind them holds, with a 16-bit count in front. -/
structure GfxLayout where
  size : Nat
  fields : List GfxField
  element : Option GfxField
  sized : GfxField.sizes fields + (if element.isSome then 2 else 0) = size

namespace GfxLayout

def read (l : GfxLayout) (env : GfxEnv) (s : wStream) : Except Nat (GfxPdu × wStream) :=
  if s.GetRemainingLength < l.size then .error ERROR_INVALID_DATA
  else
    match GfxField.readFields l.fields s with
    | .error e => .error e
    | .ok (fields, s) =>
      match l.element with
      | none => .ok (⟨fields, [], []⟩, s)
      | some element =>
        let (count, s) := s.Read 2
        if s.GetRemainingLength < count * element.size then .error ERROR_INVALID_DATA
        else if env.calloc count element.size then
          match GfxField.readFields (List.replicate count element) s with
          | .error e => .error e
          | .ok (elements, s) => .ok (⟨fields, elements, []⟩, s)
        else .error CHANNEL_RC_NO_MEMORY

/-- The count in front of the array. -/
def count (l : GfxLayout) (s : wStream) : Nat := ((s.Seek (GfxField.sizes l.fields)).Read 2).1

/-- There is what the handler asks for. -/
def Fits (l : GfxLayout) (s : wStream) : Prop :=
  l.size ≤ s.GetRemainingLength ∧
    ∀ element ∈ l.element, l.size + l.count s * element.size ≤ s.GetRemainingLength

variable {l : GfxLayout} {env : GfxEnv} {s : wStream}

/-- **What a handler reads, it has checked**: with memory, it reads its PDU exactly if the PDU
fits. -/
theorem read_ok_iff (h : s.Within) :
    (∃ pdu t, l.read env s = .ok (pdu, t)) ↔
      l.Fits s ∧ ∀ element ∈ l.element, env.calloc (l.count s) element.size = true := by
  unfold read Fits
  by_cases hsize : s.GetRemainingLength < l.size
  · rw [if_pos hsize]
    simp only [reduceCtorEq, exists_false, false_iff]
    rintro ⟨⟨hle, -⟩, -⟩
    omega
  rw [if_neg hsize]
  have hsized := l.sized
  obtain ⟨values, hvalues⟩ := GfxField.readFields_ok h (show GfxField.sizes l.fields ≤ _ by omega)
  simp only [hvalues]
  cases helement : l.element with
  | none => simp [Nat.not_lt.mp hsize]
  | some element =>
    rw [helement] at hsized
    have hseek : (s.Seek (GfxField.sizes l.fields)).Seek 2 = s.Seek l.size := by
      rw [wStream.Seek_Seek, ← hsized]
      rfl
    have hremaining := h.remaining_seek (Nat.not_lt.mp hsize)
    simp only [wStream.Read, hseek, hremaining]
    have hcount : ofLe ((s.Seek (GfxField.sizes l.fields)).Pointer 2) = l.count s := rfl
    rw [hcount]
    by_cases harray : s.GetRemainingLength - l.size < l.count s * element.size
    · rw [if_pos harray]
      simp
      omega
    · rw [if_neg harray]
      have helements : GfxField.sizes (List.replicate (l.count s) element) ≤
          (s.Seek l.size).GetRemainingLength := by
        rw [GfxField.sizes_replicate, hremaining]
        omega
      obtain ⟨elements, helements⟩ :=
        GfxField.readFields_ok (h.seek (Nat.not_lt.mp hsize)) helements
      cases hcalloc : env.calloc (l.count s) element.size with
      | false => simp [hcalloc]
      | true =>
        simp [hcalloc, helements]
        omega

/-- Memory for an array whose elements are there is never more than there are addresses. -/
theorem read_fine (l : GfxLayout) (h : s.Within) (hfits : l.Fits s) :
    ∃ pdu t, l.read .fine s = .ok (pdu, t) := by
  refine (read_ok_iff h).mpr ⟨hfits, fun element helement => ?_⟩
  have hle := hfits.2 element helement
  rw [h.remaining] at hle
  have hlength := h.length_lt
  have hlt : l.count s * element.size < 2 ^ 32 := by omega
  exact Bool.and_eq_true_iff.mpr ⟨rfl, decide_eq_true hlt⟩

theorem read_buffer {pdu : GfxPdu} {t : wStream} (h : l.read env s = .ok (pdu, t)) :
    t.buffer = s.buffer := by
  unfold read at h
  split_ifs at h with hsize
  split at h
  · simp at h
  rename_i fields u hfields
  have hu := GfxField.readFields_buffer hfields
  split at h
  · obtain ⟨-, rfl⟩ := Prod.mk.inj (Except.ok.inj h)
    exact hu
  · dsimp only at h
    split_ifs at h with harray hcalloc
    · split at h
      · simp at h
      · rename_i elements v helements
        obtain ⟨-, rfl⟩ := Prod.mk.inj (Except.ok.inj h)
        exact (GfxField.readFields_buffer helements).trans hu

end GfxLayout

/-- How the handler of a command reads its PDU, and the PDUs that it takes: it refuses every other,
takes these where nothing fails around it, and leaves the buffer alone. -/
structure GfxReader where
  read : GfxEnv → wStream → Except Nat (GfxPdu × wStream)
  Fits : wStream → Prop
  ok : ∀ {env s pdu t}, s.Within → read env s = .ok (pdu, t) → Fits s ∧ t.buffer = s.buffer
  takes : ∀ {s}, s.Within → Fits s → ∃ pdu t, read .fine s = .ok (pdu, t)

/-- A `break` alone: nothing is read. -/
def GfxReader.none : GfxReader where
  read _ s := .ok (⟨[], [], []⟩, s)
  Fits _ := True
  ok _ h := ⟨trivial, (Prod.mk.inj (Except.ok.inj h)).2 ▸ rfl⟩
  takes _ _ := ⟨_, _, rfl⟩

def GfxLayout.reader (l : GfxLayout) : GfxReader where
  read := l.read
  Fits := l.Fits
  ok h hread := ⟨((read_ok_iff h).mp ⟨_, _, hread⟩).1, read_buffer hread⟩
  takes h hfits := l.read_fine h hfits

/-- What handles a command: how it reads its PDU, and what it does then, with the error it ends
with; there is none where nothing fails around it. -/
structure GfxHandler where
  reader : GfxReader
  after : GfxEnv → RdpgfxPlugin → GfxPdu → Nat × RdpgfxPlugin
  fine : ∀ gfx pdu, (after .fine gfx pdu).1 = CHANNEL_RC_OK

namespace GfxHandler

/-- The PDU is given to the context. -/
def ofReader (cmd : GfxCmdId) (reader : GfxReader) : GfxHandler where
  reader := reader
  after env gfx pdu := (env.context cmd pdu, gfx)
  fine _ _ := rfl

/-- The command does nothing. -/
def ignore : GfxHandler where
  reader := .none
  after _ gfx _ := (CHANNEL_RC_OK, gfx)
  fine _ _ := rfl

def recv (handler : GfxHandler) (env : GfxEnv) (gfx : RdpgfxPlugin) (s : wStream) :
    Except Nat wStream × RdpgfxPlugin :=
  match handler.reader.read env s with
  | .error e => (.error e, gfx)
  | .ok (pdu, t) =>
    let (error, gfx) := handler.after env gfx pdu
    (if error = CHANNEL_RC_OK then .ok t else .error error, gfx)

variable {handler : GfxHandler} {env : GfxEnv} {gfx : RdpgfxPlugin} {s t : wStream}

theorem recv_ok (h : s.Within) (hrecv : (handler.recv env gfx s).1 = .ok t) :
    handler.reader.Fits s ∧ t.buffer = s.buffer := by
  unfold recv at hrecv
  split at hrecv
  · simp at hrecv
  · rename_i pdu u hread
    dsimp only at hrecv
    split_ifs at hrecv
    obtain rfl := Except.ok.inj hrecv
    exact handler.reader.ok h hread

theorem recv_fine (gfx : RdpgfxPlugin) (h : s.Within) (hfits : handler.reader.Fits s) :
    ∃ t, (handler.recv .fine gfx s).1 = .ok t := by
  obtain ⟨pdu, t, hread⟩ := handler.reader.takes h hfits
  refine ⟨t, ?_⟩
  unfold recv
  rw [hread]
  exact if_pos (handler.fine gfx pdu)

end GfxHandler

/-! ## Acknowledgements -/

/-- `RDPGFX_END_FRAME_PDU` is the id of the frame. -/
def endFrameReader : GfxReader := GfxLayout.reader ⟨4, [.UINT32], none, rfl⟩

theorem endFrameReader_read (env : GfxEnv) (s : wStream) :
    endFrameReader.read env s =
      if s.GetRemainingLength < 4 then .error ERROR_INVALID_DATA
      else .ok (⟨[(s.Read 4).1], [], []⟩, s.Seek 4) := by
  have hread : GfxField.UINT32.read s = .ok ([(s.Read 4).1], s.Seek 4) :=
    if_neg (Nat.not_lt_zero _)
  show GfxLayout.read _ env s = _
  unfold GfxLayout.read
  split_ifs with hlen
  · rfl
  · simp only [GfxField.readFields, hread]
    rfl

def GfxPdu.frameId (pdu : GfxPdu) : Nat := pdu.fields.headD 0

/-- `rdpgfx_send_frame_acknowledge_pdu`: without memory for the stream nothing is written. -/
def sendFrameAcknowledge (env : GfxEnv) (gfx : RdpgfxPlugin) (ack : FrameAcknowledge) :
    Nat × RdpgfxPlugin :=
  if env.malloc then (env.Write, { gfx with written := gfx.written ++ [ack.bytes] })
  else (CHANNEL_RC_NO_MEMORY, gfx)

/-- What `recv_end_frame_pdu` does with the id of the frame, in both copies. -/
def endFrame (env : GfxEnv) (gfx : RdpgfxPlugin) (frameId : Nat) : Nat × RdpgfxPlugin :=
  let gfx := { gfx with
    UnacknowledgedFrames := subU32 gfx.UnacknowledgedFrames 1
    TotalDecodedFrames := u32 (gfx.TotalDecodedFrames + 1) }
  if gfx.suspendFrameAcks then
    if gfx.TotalDecodedFrames = 1 then
      sendFrameAcknowledge env gfx ⟨SUSPEND_FRAME_ACKNOWLEDGEMENT, frameId, gfx.TotalDecodedFrames⟩
    else (CHANNEL_RC_OK, gfx)
  else sendFrameAcknowledge env gfx ⟨QUEUE_DEPTH_UNAVAILABLE, frameId, gfx.TotalDecodedFrames⟩

/-- The counters after the end of a frame. -/
theorem endFrame_counters (env : GfxEnv) (gfx : RdpgfxPlugin) (frameId : Nat) :
    (endFrame env gfx frameId).2.UnacknowledgedFrames = subU32 gfx.UnacknowledgedFrames 1 ∧
      (endFrame env gfx frameId).2.TotalDecodedFrames = u32 (gfx.TotalDecodedFrames + 1) ∧
      (endFrame env gfx frameId).2.suspendFrameAcks = gfx.suspendFrameAcks := by
  -- taken apart, so that no `rfl` compares the old record with the new one, words and all
  rcases gfx with ⟨unacknowledged, total, suspendFrameAcks, written⟩
  unfold endFrame sendFrameAcknowledge
  dsimp only
  split_ifs <;> exact ⟨rfl, rfl, rfl⟩

/-- The acknowledgement of a frame, where there is memory for it. -/
theorem endFrame_written {env : GfxEnv} (hmalloc : env.malloc = true) (gfx : RdpgfxPlugin)
    (frameId : Nat) :
    (endFrame env gfx frameId).2.written = gfx.written ++
      if gfx.suspendFrameAcks then
        if u32 (gfx.TotalDecodedFrames + 1) = 1 then
          [FrameAcknowledge.bytes ⟨SUSPEND_FRAME_ACKNOWLEDGEMENT, frameId, 1⟩]
        else []
      else [FrameAcknowledge.bytes
        ⟨QUEUE_DEPTH_UNAVAILABLE, frameId, u32 (gfx.TotalDecodedFrames + 1)⟩] := by
  rcases gfx with ⟨unacknowledged, total, suspendFrameAcks, written⟩
  unfold endFrame sendFrameAcknowledge
  dsimp only
  simp only [hmalloc, if_true]
  split_ifs with hsuspend htotal
  · dsimp only
    rw [htotal]
  · dsimp only
    rw [List.append_nil]
  · dsimp only

theorem endFrame_fine (gfx : RdpgfxPlugin) (pdu : GfxPdu) :
    (endFrame .fine gfx pdu.frameId).1 = CHANNEL_RC_OK := by
  unfold endFrame
  dsimp only
  split_ifs <;> rfl

/-! ## `recv_pdu` -/

/-- The header at the cursor. -/
def gfxHeader (s : wStream) : GfxHeader where
  cmdId := (s.Read 2).1
  flags := ((s.Seek 2).Read 2).1
  pduLength := ((s.Seek 4).Read 4).1

/-- `rdpgfx_read_header`. -/
def readHeader (s : wStream) : Except Nat (GfxHeader × wStream) :=
  if s.GetRemainingLength < RDPGFX_HEADER_SIZE then .error CHANNEL_RC_NO_MEMORY
  else .ok (gfxHeader s, s.Seek RDPGFX_HEADER_SIZE)

/-- A header, the handler of its command, and then on to where the header says that the PDU ends. -/
def recvPdu (commands : GfxCmdId → GfxHandler) (env : GfxEnv) (gfx : RdpgfxPlugin) (s : wStream) :
    Except Nat wStream × RdpgfxPlugin :=
  match readHeader s with
  | .error e => (.error e, gfx)
  | .ok (header, t) =>
    match GfxCmdId.ofWord header.cmdId with
    | none => (.error CHANNEL_RC_BAD_PROC, gfx)
    | some cmd =>
      match (commands cmd).recv env gfx t with
      | (.error e, gfx) => (.error e, gfx)
      | (.ok t, gfx) =>
        -- `beg + header.pduLength`, an `int` and a `UINT32`
        if t.position ≠ u32 (s.position + header.pduLength) then
          (.ok (t.SetPosition (s.position + header.pduLength)), gfx)
        else (.ok t, gfx)

/-- A PDU that is taken: a header, a known command, and what its handler asks for. -/
def Accepts (commands : GfxCmdId → GfxHandler) (s : wStream) : Prop :=
  RDPGFX_HEADER_SIZE ≤ s.GetRemainingLength ∧
    ∃ cmd, GfxCmdId.ofWord (gfxHeader s).cmdId = some cmd ∧
      (commands cmd).reader.Fits (s.Seek RDPGFX_HEADER_SIZE)

variable {commands : GfxCmdId → GfxHandler} {env : GfxEnv} {gfx : RdpgfxPlugin} {s t : wStream}

/-- The end of `recv_pdu`: the cursor is where the header says. -/
theorem setPosition_eq (t : wStream) (p : Nat) :
    (if t.position ≠ u32 p then t.SetPosition p else t) = t.SetPosition p := by
  split_ifs with h
  · rfl
  · rw [wStream.SetPosition, ← not_not.mp h]

/-- **What `recv_pdu` takes**, and where it stands then. -/
theorem recvPdu_ok (h : s.Within) (hrecv : (recvPdu commands env gfx s).1 = .ok t) :
    Accepts commands s ∧ t.buffer = s.buffer ∧
      t.position = u32 (s.position + (gfxHeader s).pduLength) := by
  unfold recvPdu readHeader at hrecv
  split_ifs at hrecv with hheader
  have hle : RDPGFX_HEADER_SIZE ≤ s.GetRemainingLength := Nat.not_lt.mp hheader
  dsimp only at hrecv
  split at hrecv
  · simp at hrecv
  rename_i cmd hcmd
  split at hrecv
  · simp at hrecv
  rename_i u gfx' hhandler
  have hhandler : ((commands cmd).recv env gfx (s.Seek RDPGFX_HEADER_SIZE)).1 = .ok u := by
    rw [hhandler]
  obtain ⟨hfits, hbuffer⟩ := GfxHandler.recv_ok (h.seek hle) hhandler
  have ht : t = u.SetPosition (s.position + (gfxHeader s).pduLength) := by
    rw [← setPosition_eq]
    split_ifs at hrecv with hposition
    · rw [if_pos hposition]
      exact (Except.ok.inj hrecv).symm
    · rw [if_neg hposition]
      exact (Except.ok.inj hrecv).symm
  subst ht
  exact ⟨⟨hle, cmd, hcmd, hfits⟩, hbuffer, rfl⟩

/-- Only the handler of the command has a hand in the counters. -/
theorem recvPdu_gfx (commands : GfxCmdId → GfxHandler) (env : GfxEnv) (gfx : RdpgfxPlugin)
    (s : wStream) :
    (recvPdu commands env gfx s).2 =
      if s.GetRemainingLength < RDPGFX_HEADER_SIZE then gfx
      else
        match GfxCmdId.ofWord (gfxHeader s).cmdId with
        | none => gfx
        | some cmd => ((commands cmd).recv env gfx (s.Seek RDPGFX_HEADER_SIZE)).2 := by
  unfold recvPdu readHeader
  split_ifs with hheader
  · rfl
  dsimp only
  split
  · rfl
  · rename_i cmd hcmd
    rcases (commands cmd).recv env gfx (s.Seek RDPGFX_HEADER_SIZE) with ⟨e | t, gfx'⟩
    · rfl
    · dsimp only
      split_ifs <;> rfl

/-- **Where nothing fails**, every such PDU is taken. -/
theorem recvPdu_accepts (gfx : RdpgfxPlugin) (h : s.Within) (haccepts : Accepts commands s) :
    ∃ t, (recvPdu commands .fine gfx s).1 = .ok t := by
  obtain ⟨hle, cmd, hcmd, hfits⟩ := haccepts
  obtain ⟨u, hu⟩ := GfxHandler.recv_fine gfx (h.seek hle) hfits
  unfold recvPdu readHeader
  rw [if_neg (Nat.not_lt.mpr hle)]
  simp only [hcmd]
  rcases hrecv : (commands cmd).recv .fine gfx (s.Seek RDPGFX_HEADER_SIZE) with ⟨r, gfx'⟩
  rw [hrecv] at hu
  dsimp only at hu
  subst hu
  dsimp only
  split_ifs
  · exact ⟨_, rfl⟩
  · exact ⟨u, rfl⟩

end TiraRdp
