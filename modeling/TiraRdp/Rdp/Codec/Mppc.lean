import TiraRdp.Lib.Loop
import TiraRdp.Lib.PrefixCode
import TiraRdp.Rdp.Codec.BitStream

/-!
# MPPC bulk compression

`Rdp/src/libfreerdp/codec/mppc.c`, and the callers in `libfreerdp/core/bulk.c:109-245` that pick it
for levels 8K and 64K.

* `MPPC_CONTEXT`: the fields; pointers into `HistoryBuffer` are offsets. The bit stream of a context
  is attached anew by each call, so that it is local here.
* `copyOffsetRows`, `lengthRows` and `copyOffsetRanges`, `lengthRanges`: the branches of the decoder
  and of the encoder.
* `Decompress`, `decodeToken`, `mppc_decompress`: the decoder, with the loop of the source.
* `Compress`, `extend`, `encodeToken`, `encodeTrailing`, `mppc_compress`: the encoder; `rest` are the
  bytes from `pSrcPtr` on.
* `rdpBulk`, `bulk_compress`, `bulk_decompress`: what comes of a packet.

An access outside of `HistoryBuffer` or of the source is `Halt.outside`, but for one: the encoder
reads the byte in front of `HistoryBuffer`, which is a byte of the context (`byteBefore`).
-/

namespace TiraRdp.Mppc

open Lib Mem

def PACKET_COMPRESSED : Nat := 0x20
def PACKET_AT_FRONT : Nat := 0x40
def PACKET_FLUSHED : Nat := 0x80

/-- `sizeof(HistoryBuffer)`. -/
def HistorySpace : Nat := 65536

def MPPC_MATCH_TABLE (sym : UInt8) : Nat := u32 (sym.toNat * 0x9CCF93)

def MPPC_MATCH_INDEX (sym1 sym2 sym3 : UInt8) : Nat :=
  (u32 (u32 (MPPC_MATCH_TABLE sym3 <<< 16) + u32 (MPPC_MATCH_TABLE sym2 <<< 8) +
    MPPC_MATCH_TABLE sym1) &&& 0x07FFF000) >>> 12

structure MPPC_CONTEXT where
  HistoryPtr : Nat
  HistoryOffset : Nat
  HistoryBufferSize : Nat
  HistoryBuffer : Mem UInt8
  MatchBuffer : Nat → Nat
  CompressionLevel : Nat

def mppc_set_compression_level (mppc : MPPC_CONTEXT) (CompressionLevel : Nat) : MPPC_CONTEXT :=
  if CompressionLevel < 1 then { mppc with CompressionLevel := 0, HistoryBufferSize := 8192 }
  else { mppc with CompressionLevel := 1, HistoryBufferSize := 65536 }

def mppc_context_reset (mppc : MPPC_CONTEXT) (flush : Bool) : MPPC_CONTEXT :=
  let HistoryOffset := if flush then mppc.HistoryBufferSize + 1 else 0
  { mppc with
    HistoryBuffer := fun _ => 0
    MatchBuffer := fun _ => 0
    HistoryOffset
    HistoryPtr := HistoryOffset }

def mppc_context_new (CompressionLevel : Nat) : MPPC_CONTEXT :=
  mppc_context_reset
    (mppc_set_compression_level ⟨0, 0, 0, fun _ => 0, fun _ => 0, 0⟩ CompressionLevel) false

/-! ## The branches -/

/-- The `CopyOffset` branches of the decoder. -/
def copyOffsetRows (CompressionLevel : Nat) : List MaskRow :=
  if CompressionLevel ≠ 0 then
    [⟨0xF8000000, 0xF8000000, 21, 0x3F, 0, 11⟩, ⟨0xF8000000, 0xF0000000, 19, 0xFF, 64, 13⟩,
      ⟨0xF0000000, 0xE0000000, 17, 0x7FF, 320, 15⟩, ⟨0xE0000000, 0xC0000000, 13, 0xFFFF, 2368, 19⟩]
  else
    [⟨0xF0000000, 0xF0000000, 22, 0x3F, 0, 10⟩, ⟨0xF0000000, 0xE0000000, 20, 0xFF, 64, 12⟩,
      ⟨0xE0000000, 0xC0000000, 16, 0x1FFF, 320, 16⟩]

/-- The `LengthOfMatch` branches of the decoder. -/
def lengthRows (CompressionLevel : Nat) : List MaskRow :=
  [⟨0x80000000, 0x00000000, 31, 0, 3, 1⟩, ⟨0xC0000000, 0x80000000, 28, 0x0003, 0x0004, 4⟩,
    ⟨0xE0000000, 0xC0000000, 26, 0x0007, 0x0008, 6⟩, ⟨0xF0000000, 0xE0000000, 24, 0x000F, 0x0010, 8⟩,
    ⟨0xF8000000, 0xF0000000, 22, 0x001F, 0x0020, 10⟩, ⟨0xFC000000, 0xF8000000, 20, 0x003F, 0x0040, 12⟩,
    ⟨0xFE000000, 0xFC000000, 18, 0x007F, 0x0080, 14⟩, ⟨0xFF000000, 0xFE000000, 16, 0x00FF, 0x0100, 16⟩,
    ⟨0xFF800000, 0xFF000000, 14, 0x01FF, 0x0200, 18⟩, ⟨0xFFC00000, 0xFF800000, 12, 0x03FF, 0x0400, 20⟩,
    ⟨0xFFE00000, 0xFFC00000, 10, 0x07FF, 0x0800, 22⟩, ⟨0xFFF00000, 0xFFE00000, 8, 0x0FFF, 0x1000, 24⟩] ++
  if CompressionLevel ≠ 0 then
    [⟨0xFFF80000, 0xFFF00000, 6, 0x1FFF, 0x2000, 26⟩, ⟨0xFFFC0000, 0xFFF80000, 4, 0x3FFF, 0x4000, 28⟩,
      ⟨0xFFFE0000, 0xFFFC0000, 2, 0x7FFF, 0x8000, 30⟩]
  else []

/-- The `CopyOffset` branches of the encoder; the last one of RDP5 is an `else`. -/
def copyOffsetRanges (CompressionLevel : Nat) : List RangeRow :=
  if CompressionLevel ≠ 0 then
    [⟨0, 64, 0x07C0, 0, 0x003F, 11⟩, ⟨64, 320, 0x1E00, 64, 0x00FF, 13⟩,
      ⟨320, 2368, 0x7000, 320, 0x07FF, 15⟩, ⟨2368, 2 ^ 32, 0x060000, 2368, 0xFFFF, 19⟩]
  else
    [⟨0, 64, 0x03C0, 0, 0x003F, 10⟩, ⟨64, 320, 0x0E00, 64, 0x00FF, 12⟩,
      ⟨320, 8192, 0xC000, 320, 0x1FFF, 16⟩]

/-- The `LengthOfMatch` branches of the encoder. -/
def lengthRanges (CompressionLevel : Nat) : List RangeRow :=
  [⟨3, 4, 0, 0, 0, 1⟩, ⟨4, 8, 0x0008, 0, 0x0003, 4⟩, ⟨8, 16, 0x0030, 0, 0x0007, 6⟩,
    ⟨16, 32, 0x00E0, 0, 0x000F, 8⟩, ⟨32, 64, 0x03C0, 0, 0x001F, 10⟩, ⟨64, 128, 0x0F80, 0, 0x003F, 12⟩,
    ⟨128, 256, 0x3F00, 0, 0x007F, 14⟩, ⟨256, 512, 0xFE00, 0, 0x00FF, 16⟩,
    ⟨512, 1024, 0x3FC00, 0, 0x01FF, 18⟩, ⟨1024, 2048, 0xFF800, 0, 0x03FF, 20⟩,
    ⟨2048, 4096, 0x3FF000, 0, 0x07FF, 22⟩, ⟨4096, 8192, 0xFFE000, 0, 0x0FFF, 24⟩] ++
  if CompressionLevel ≠ 0 then
    [⟨8192, 16384, 0x3FFC000, 0, 0x1FFF, 26⟩, ⟨16384, 32768, 0xFFF8000, 0, 0x3FFF, 28⟩,
      ⟨32768, 65536, 0x3FFF0000, 0, 0x7FFF, 30⟩]
  else []

/-! ## Decompression -/

/-- How a loop is left before its end: the function returns, or there is no answer. -/
inductive Leave (ε : Type)
  | early (e : ε)
  | halt (h : Halt)

variable {ε : Type}

/-- `HistoryBuffer[i]`. -/
def historyAt (HistoryBuffer : Mem UInt8) (i : Nat) : Except (Leave ε) UInt8 :=
  if i < HistorySpace then .ok (HistoryBuffer i) else .error (.halt .outside)

/-- `HistoryBuffer[i] = b`. -/
def putHistory (HistoryBuffer : Mem UInt8) (i : Nat) (b : UInt8) : Except (Leave ε) (Mem UInt8) :=
  if i < HistorySpace then .ok (HistoryBuffer.write i [b]) else .error (.halt .outside)

/-- A status that is returned early, with the history as it is by then. -/
abbrev Early := Int × Mem UInt8

/-- What the loop of `mppc_decompress` changes. -/
structure Decompress where
  bs : wBitStream
  HistoryBuffer : Mem UInt8
  HistoryPtr : Nat

/-- `*(HistoryPtr++) = Literal`, and `nbits` used. -/
def Decompress.literal (d : Decompress) (Literal nbits : Nat) :
    Except (Leave Early) Decompress := do
  let HistoryBuffer ← putHistory d.HistoryBuffer d.HistoryPtr (UInt8.ofNat Literal)
  .ok ⟨d.bs.Shift nbits, HistoryBuffer, d.HistoryPtr + 1⟩

/-- `*HistoryPtr++ = *SrcPtr++`, as often as the match is long. -/
def copyMatch : Nat → Mem UInt8 → Nat → Nat → Except (Leave Early) (Mem UInt8)
  | 0, HistoryBuffer, _, _ => .ok HistoryBuffer
  | n + 1, HistoryBuffer, HistoryPtr, SrcPtr => do
    let b ← historyAt HistoryBuffer SrcPtr
    let HistoryBuffer ← putHistory HistoryBuffer HistoryPtr b
    copyMatch n HistoryBuffer (HistoryPtr + 1) (SrcPtr + 1)

/-- `SrcPtr` as an offset into the history. -/
def sourceOf (CompressionLevel HistoryPtr CopyOffset : Nat) : Nat :=
  (((HistoryPtr : Int) - CopyOffset) % (if CompressionLevel ≠ 0 then 0x10000 else 0x2000)).toNat

/-- One round of the loop. -/
def decodeToken (CompressionLevel HistoryBufferSize : Nat) (d : Decompress) :
    Except (Leave Early) Decompress :=
  let early (status : Int) := Except.error (Leave.early (status, d.HistoryBuffer))
  let accumulator := d.bs.accumulator
  if d.HistoryPtr > HistoryBufferSize - 1 then early (-1004)
  else if accumulator &&& 0x80000000 = 0 then
    d.literal ((accumulator &&& 0x7F000000) >>> 24) 8
  else if accumulator &&& 0xC0000000 = 0x80000000 then
    d.literal (((accumulator &&& 0x3F800000) >>> 23) + 0x80) 9
  else
    match (copyOffsetRows CompressionLevel).find? (·.hit accumulator) with
    | none => early (if CompressionLevel ≠ 0 then -1001 else -1002)
    | some offsetRow =>
      let CopyOffset := offsetRow.number accumulator
      let bs := d.bs.Shift offsetRow.nbits
      match (lengthRows CompressionLevel).find? (·.hit bs.accumulator) with
      | none => early (-1003)
      | some lengthRow =>
        let LengthOfMatch := lengthRow.number bs.accumulator
        let bs := bs.Shift lengthRow.nbits
        if d.HistoryPtr + LengthOfMatch - 1 > HistoryBufferSize - 1 then early (-1005)
        else do
          let HistoryBuffer ← copyMatch LengthOfMatch d.HistoryBuffer d.HistoryPtr
            (sourceOf CompressionLevel d.HistoryPtr CopyOffset)
          .ok ⟨bs, HistoryBuffer, d.HistoryPtr + LengthOfMatch⟩

/-- `(bs->length - bs->position) >= 8`, of two `int`s: false behind the end. -/
def Decompress.more (d : Decompress) : Bool :=
  decide (8 ≤ i32 ((d.bs.length : Int) - d.bs.position))

/-- The flags at the head of a packet. -/
def takeFlags (mppc : MPPC_CONTEXT) (flags : Nat) : MPPC_CONTEXT :=
  let mppc :=
    if flags &&& PACKET_AT_FRONT ≠ 0 then { mppc with HistoryOffset := 0, HistoryPtr := 0 } else mppc
  if flags &&& PACKET_FLUSHED ≠ 0 then
    { mppc with
      HistoryOffset := 0
      HistoryPtr := 0
      HistoryBuffer := mppc.HistoryBuffer.write 0 (List.replicate mppc.HistoryBufferSize 0) }
  else mppc

/-- The status, the bytes at `*ppDstData`, and the context. -/
def mppc_decompress (mppc : MPPC_CONTEXT) (src : Bytes) (flags : Nat) :
    Except Halt (Int × Bytes × MPPC_CONTEXT) :=
  let bs := (wBitStream.new.Attach (Mem.write (fun _ => 0) 0 src) src.length).Fetch
  let mppc := takeFlags mppc flags
  if flags &&& PACKET_COMPRESSED = 0 then .ok (1, src, mppc)
  else
    -- every round moves `HistoryPtr` on
    match Loop.run Decompress.more (decodeToken mppc.CompressionLevel mppc.HistoryBufferSize)
      (mppc.HistoryBufferSize + 1) ⟨bs, mppc.HistoryBuffer, mppc.HistoryPtr⟩ with
    | none => .error .hang
    | some (.error (.halt h)) => .error h
    | some (.error (.early (status, HistoryBuffer))) => .ok (status, [], { mppc with HistoryBuffer })
    | some (.ok d) =>
      .ok (1, read d.HistoryBuffer mppc.HistoryPtr (d.HistoryPtr - mppc.HistoryPtr),
        { mppc with HistoryBuffer := d.HistoryBuffer, HistoryPtr := d.HistoryPtr })

/-! ## Compression -/

/-- What the loops of `mppc_compress` change. -/
structure Compress where
  mppc : MPPC_CONTEXT
  bs : wBitStream
  HistoryPtr : Nat
  rest : Bytes

/-- A literal, when there is room for it; without, the packet is given up. -/
def Compress.literal (c : Compress) (DstSize : Nat) (sym : UInt8) : Except (Leave Unit) Compress :=
  if c.bs.position / 8 + 2 > subU32 DstSize 1 then .error (.early ())
  else if sym.toNat < 0x80 then .ok { c with bs := c.bs.Write_Bits sym.toNat 8 }
  else .ok { c with bs := c.bs.Write_Bits (0x100 ||| (sym.toNat &&& 0x7F)) 9 }

/-- `*(MatchPtr - 1)`. In front of `HistoryBuffer` the context has the last byte of
`HistoryBufferSize` (`include/freerdp/codec/mppc.h:36-37`). -/
def byteBefore (mppc : MPPC_CONTEXT) : Nat → Except (Leave Unit) UInt8
  | 0 => .ok (UInt8.ofNat (mppc.HistoryBufferSize >>> 24))
  | i + 1 => historyAt mppc.HistoryBuffer i

/-- The match that the symbols before `HistoryPtr` may begin: whether it is one. That `MatchPtr` is
not the beginning of the history is tested only behind the symbols. -/
def isMatch (mppc : MPPC_CONTEXT) (HistoryPtr MatchPtr : Nat) (sym1 sym2 sym3 : UInt8) :
    Except (Leave Unit) Bool := do
  let before ← byteBefore mppc MatchPtr
  if sym1 ≠ before then .ok false
  else do
    let first ← historyAt mppc.HistoryBuffer MatchPtr
    if sym2 ≠ first then .ok false
    else do
      let second ← historyAt mppc.HistoryBuffer (MatchPtr + 1)
      .ok (sym3 == second && decide (MatchPtr + 1 ≤ mppc.HistoryPtr) && decide (MatchPtr ≠ 0) &&
        decide (MatchPtr ≠ HistoryPtr - 1) && decide (MatchPtr ≠ HistoryPtr))

/-- The `while` that makes a match longer: the history, `HistoryPtr`, `LengthOfMatch` and the rest of
the source. -/
def extend (mark : Nat) : Bytes → Mem UInt8 → Nat → Nat → Nat →
    Except (Leave Unit) (Mem UInt8 × Nat × Nat × Bytes)
  | [], _, _, _, _ => .error (.halt .outside)
  | b :: rest, HistoryBuffer, HistoryPtr, MatchPtr, LengthOfMatch => do
    let old ← historyAt HistoryBuffer MatchPtr
    if b = old ∧ rest ≠ [] ∧ MatchPtr ≤ mark then do
      let HistoryBuffer ← putHistory HistoryBuffer HistoryPtr b
      extend mark rest HistoryBuffer (HistoryPtr + 1) (MatchPtr + 1) (LengthOfMatch + 1)
    else .ok (HistoryBuffer, HistoryPtr, LengthOfMatch, b :: rest)

/-- The branch that is taken, if there is one. -/
def writeRange (rows : List RangeRow) (v : Nat) (bs : wBitStream) : wBitStream :=
  match rows.find? (·.hit v) with
  | none => bs
  | some row => bs.Write_Bits (row.number v) row.nbits

/-- A match, when there is room for it. -/
def Compress.copy (c : Compress) (DstSize MatchPtr : Nat) (sym2 sym3 : UInt8) :
    Except (Leave Unit) Compress := do
  let CopyOffset := (c.mppc.HistoryBufferSize - 1) &&& subU32 c.HistoryPtr MatchPtr
  let HistoryBuffer ← putHistory c.mppc.HistoryBuffer c.HistoryPtr sym2
  let HistoryBuffer ← putHistory HistoryBuffer (c.HistoryPtr + 1) sym3
  let (HistoryBuffer, HistoryPtr, LengthOfMatch, rest) ←
    extend c.mppc.HistoryPtr c.rest HistoryBuffer (c.HistoryPtr + 2) (MatchPtr + 2) 3
  if c.bs.position / 8 + 7 > subU32 DstSize 1 then .error (.early ())
  else
    let bs := writeRange (copyOffsetRanges c.mppc.CompressionLevel) CopyOffset c.bs
    let bs := writeRange (lengthRanges c.mppc.CompressionLevel) LengthOfMatch bs
    .ok ⟨{ c.mppc with HistoryBuffer }, bs, HistoryPtr, rest⟩

/-- One round of the loop. -/
def encodeToken (DstSize : Nat) (c : Compress) : Except (Leave Unit) Compress :=
  match c.rest with
  | sym1 :: sym2 :: sym3 :: rest => do
    let HistoryBuffer ← putHistory c.mppc.HistoryBuffer c.HistoryPtr sym1
    let HistoryPtr := c.HistoryPtr + 1
    let MatchIndex := MPPC_MATCH_INDEX sym1 sym2 sym3
    let MatchPtr := c.mppc.MatchBuffer MatchIndex
    let mppc := { c.mppc with
      HistoryBuffer
      MatchBuffer :=
        if MatchPtr ≠ HistoryPtr - 1 then
          Function.update c.mppc.MatchBuffer MatchIndex (HistoryPtr % 2 ^ 16)
        else c.mppc.MatchBuffer
      HistoryPtr := max c.mppc.HistoryPtr HistoryPtr }
    let found ← isMatch mppc HistoryPtr MatchPtr sym1 sym2 sym3
    if found then
      Compress.copy ⟨mppc, c.bs, HistoryPtr, rest⟩ DstSize MatchPtr sym2 sym3
    else
      Compress.literal ⟨mppc, c.bs, HistoryPtr, sym2 :: sym3 :: rest⟩ DstSize sym1
  | _ => .error (.halt .outside)

/-- `while (pSrcPtr <= pSrcEnd)`. -/
def encodeTrailing (DstSize : Nat) : Bytes → Compress → Except (Leave Unit) Compress
  | [], c => .ok c
  | sym :: rest, c => do
    let c ← c.literal DstSize sym
    let HistoryBuffer ← putHistory c.mppc.HistoryBuffer c.HistoryPtr sym
    encodeTrailing DstSize rest ⟨{ c.mppc with HistoryBuffer }, c.bs, c.HistoryPtr + 1, rest⟩

/-- Both loops. -/
def encodeTokens (DstSize : Nat) (c : Compress) : Except (Leave Unit) Compress :=
  -- every round takes a byte
  match Loop.run (fun c => decide (3 < c.rest.length)) (encodeToken DstSize) (c.rest.length + 1) c with
  | none => .error (.halt .hang)
  | some (.error e) => .error e
  | some (.ok c) => encodeTrailing DstSize c.rest c

/-- The status, `*pFlags`, the bytes at `*ppDstData`, and the context. -/
structure Packed where
  status : Int
  flags : Nat
  bytes : Bytes
  mppc : MPPC_CONTEXT

/-- With a `pDstData` of `room` bytes. -/
def mppc_compress (mppc : MPPC_CONTEXT) (src : Bytes) (pDstData : Mem UInt8) (room : Nat) :
    Except Halt Packed :=
  let PacketAtFront := !decide (u32 (mppc.HistoryOffset + src.length) <
    subU32 mppc.HistoryBufferSize 3 ∧ mppc.HistoryOffset ≠ 0)
  let PacketFlushed := PacketAtFront && mppc.HistoryOffset == mppc.HistoryBufferSize + 1
  let HistoryOffset := if PacketAtFront then 0 else mppc.HistoryOffset
  let DstSize := if room > src.length then src.length else room
  let bs := wBitStream.new.Attach pDstData DstSize
  match encodeTokens DstSize ⟨mppc, bs, HistoryOffset, src⟩ with
  | .error (.halt h) => .error h
  | .error (.early ()) =>
    .ok ⟨1, PACKET_FLUSHED ||| mppc.CompressionLevel, src, mppc_context_reset mppc true⟩
  | .ok c =>
    let flags := PACKET_COMPRESSED ||| mppc.CompressionLevel |||
      (if PacketAtFront then PACKET_AT_FRONT else 0) ||| (if PacketFlushed then PACKET_FLUSHED else 0)
    .ok ⟨1, flags, c.bs.Flush.bytes ((c.bs.position + 7) / 8),
      { c.mppc with HistoryPtr := c.HistoryPtr, HistoryOffset := c.HistoryPtr }⟩

/-! ## The callers -/

def PACKET_COMPR_TYPE_8K : Nat := 0
def PACKET_COMPR_TYPE_64K : Nat := 1
def BULK_COMPRESSION_FLAGS_MASK : Nat := 0xE0
def BULK_COMPRESSION_TYPE_MASK : Nat := 0x0F

/-- The fields for levels 8K and 64K; `OutputBuffer` is given to `bulk_compress` apart. -/
structure rdpBulk where
  CompressionLevel : Nat
  mppcSend : MPPC_CONTEXT
  mppcRecv : MPPC_CONTEXT

def bulk_new (CompressionLevel : Nat) : rdpBulk :=
  ⟨CompressionLevel, mppc_context_new 1, mppc_context_new 1⟩

/-- For levels 8K and 64K: the status, `*pFlags` (zero before), the bytes at `*ppDstData`, and the
state. -/
def bulk_compress (bulk : rdpBulk) (src : Bytes) (OutputBuffer : Mem UInt8) :
    Except Halt (Int × Nat × Bytes × rdpBulk) :=
  if src.length ≤ 50 ∨ 16384 ≤ src.length then .ok (0, 0, src, bulk)
  else do
    let packed ← mppc_compress (mppc_set_compression_level bulk.mppcSend bulk.CompressionLevel) src
      OutputBuffer 65536
    .ok (packed.status, packed.flags, packed.bytes, { bulk with mppcSend := packed.mppc })

/-- For packets of types 8K and 64K: the status, the bytes at `*ppDstData`, and the state. -/
def bulk_decompress (bulk : rdpBulk) (src : Bytes) (flags : Nat) :
    Except Halt (Int × Bytes × rdpBulk) :=
  let type := flags &&& BULK_COMPRESSION_TYPE_MASK
  if flags &&& BULK_COMPRESSION_FLAGS_MASK ≠ 0 then
    if type = PACKET_COMPR_TYPE_8K ∨ type = PACKET_COMPR_TYPE_64K then do
      let (status, bytes, mppc) ←
        mppc_decompress (mppc_set_compression_level bulk.mppcRecv type) src flags
      .ok (status, bytes, { bulk with mppcRecv := mppc })
    else .ok (-1, [], bulk)
  else .ok (0, src, bulk)

end TiraRdp.Mppc
