import TiraRdp.Lib.Bits
import TiraRdp.Lib.Loop
import TiraRdp.Lib.Lz77
import TiraRdp.Lib.Ring

/-!
# ZGFX: the decompressor of the graphics channel

`Rdp/src/libfreerdp/codec/zgfx.c`, which the redirector and the projector both run on what comes on
the graphics channel. The source is a buffer and the input pointers are offsets from it; of
`OutputBuffer` there are the `OutputCount` bytes that have been put there. The code checks neither
what it reads nor what it writes: an access outside of a buffer is `Halt.outside`, and the loops are
cut off after `fuel` rounds (`Halt.hang`).

* `zgfx_GetBits`, `zgfx_history_buffer_ring_write`, `zgfx_history_buffer_ring_read`,
  `zgfx_decompress_segment` and `zgfx_decompress` are the functions of the same names; `search` is
  the `for` over the table, `act` what is done with the row that is found.
-/

namespace TiraRdp.Zgfx

open Lib Mem Lz77

/-! ## The table -/

structure ZGFX_TOKEN where
  prefixLength : Nat
  prefixCode : Nat
  valueBits : Nat
  tokenType : Nat
  valueBase : Nat
  deriving Repr, DecidableEq

/-- The rows before the one whose `prefixLength` is zero. -/
def ZGFX_TOKEN_TABLE : List ZGFX_TOKEN := [
  ⟨1, 0, 8, 0, 0⟩,
  ⟨5, 17, 5, 1, 0⟩,
  ⟨5, 18, 7, 1, 32⟩,
  ⟨5, 19, 9, 1, 160⟩,
  ⟨5, 20, 10, 1, 672⟩,
  ⟨5, 21, 12, 1, 1696⟩,
  ⟨5, 24, 0, 0, 0x00⟩,
  ⟨5, 25, 0, 0, 0x01⟩,
  ⟨6, 44, 14, 1, 5792⟩,
  ⟨6, 45, 15, 1, 22176⟩,
  ⟨6, 52, 0, 0, 0x02⟩,
  ⟨6, 53, 0, 0, 0x03⟩,
  ⟨6, 54, 0, 0, 0xFF⟩,
  ⟨7, 92, 18, 1, 54944⟩,
  ⟨7, 93, 20, 1, 317088⟩,
  ⟨7, 110, 0, 0, 0x04⟩,
  ⟨7, 111, 0, 0, 0x05⟩,
  ⟨7, 112, 0, 0, 0x06⟩,
  ⟨7, 113, 0, 0, 0x07⟩,
  ⟨7, 114, 0, 0, 0x08⟩,
  ⟨7, 115, 0, 0, 0x09⟩,
  ⟨7, 116, 0, 0, 0x0A⟩,
  ⟨7, 117, 0, 0, 0x0B⟩,
  ⟨7, 118, 0, 0, 0x3A⟩,
  ⟨7, 119, 0, 0, 0x3B⟩,
  ⟨7, 120, 0, 0, 0x3C⟩,
  ⟨7, 121, 0, 0, 0x3D⟩,
  ⟨7, 122, 0, 0, 0x3E⟩,
  ⟨7, 123, 0, 0, 0x3F⟩,
  ⟨7, 124, 0, 0, 0x40⟩,
  ⟨7, 125, 0, 0, 0x80⟩,
  ⟨8, 188, 20, 1, 1365664⟩,
  ⟨8, 189, 21, 1, 2414240⟩,
  ⟨8, 252, 0, 0, 0x0C⟩,
  ⟨8, 253, 0, 0, 0x38⟩,
  ⟨8, 254, 0, 0, 0x39⟩,
  ⟨8, 255, 0, 0, 0x66⟩,
  ⟨9, 380, 22, 1, 4511392⟩,
  ⟨9, 381, 23, 1, 8705696⟩,
  ⟨9, 382, 24, 1, 17094304⟩]

/-! ## The context -/

def PACKET_COMPRESSED : Nat := 0x20
def ZGFX_SEGMENTED_SINGLE : Nat := 0xE0
def ZGFX_SEGMENTED_MULTIPART : Nat := 0xE1

/-- `sizeof(OutputBuffer)`. -/
def OutputBufferSize : Nat := 65536

structure ZGFX_CONTEXT where
  pbInputCurrent : Nat
  pbInputEnd : Nat
  bits : Nat
  cBitsRemaining : Nat
  BitsCurrent : Nat
  cBitsCurrent : Nat
  output : Bytes
  HistoryBuffer : Mem UInt8
  HistoryIndex : Nat
  HistoryBufferSize : Nat

/-- `zgfx_context_new`. -/
def zgfx_context_new : ZGFX_CONTEXT := ⟨0, 0, 0, 0, 0, 0, [], fun _ => 0, 0, 2500000⟩

namespace ZGFX_CONTEXT

def OutputCount (z : ZGFX_CONTEXT) : Nat := z.output.length

/-- `CopyMemory(&OutputBuffer[OutputCount], …)`, and `OutputCount` moved on. -/
def emit (z : ZGFX_CONTEXT) (xs : Bytes) : Except Halt ZGFX_CONTEXT :=
  if z.OutputCount + xs.length ≤ OutputBufferSize then .ok { z with output := z.output ++ xs }
  else .error .outside

end ZGFX_CONTEXT

/-- The bytes of the source from `off` on. -/
def sourceBytes (src : Bytes) (off len : Nat) : Except Halt Bytes :=
  if off + len ≤ src.length then .ok ((src.drop off).take len) else .error .outside

/-! ## Bits -/

/-- The `while` of `zgfx_GetBits`, which `nbits` rounds are enough for. -/
def fetch (src : Bytes) (nbits : Nat) : Nat → ZGFX_CONTEXT → Except Halt ZGFX_CONTEXT
  | 0, z => .ok z
  | n + 1, z =>
    if z.cBitsCurrent < nbits then
      if z.pbInputCurrent < z.pbInputEnd then
        match src[z.pbInputCurrent]? with
        | none => .error .outside
        | some b =>
          fetch src nbits n { z with
            BitsCurrent := u32 (z.BitsCurrent * 2 ^ 8) + b.toNat
            cBitsCurrent := z.cBitsCurrent + 8
            pbInputCurrent := z.pbInputCurrent + 1 }
      else
        fetch src nbits n { z with
          BitsCurrent := u32 (z.BitsCurrent * 2 ^ 8), cBitsCurrent := z.cBitsCurrent + 8 }
    else .ok z

def zgfx_GetBits (src : Bytes) (z : ZGFX_CONTEXT) (nbits : Nat) : Except Halt ZGFX_CONTEXT := do
  let z ← fetch src nbits nbits z
  let cBitsCurrent := z.cBitsCurrent - nbits
  .ok { z with
    cBitsRemaining := subU32 z.cBitsRemaining nbits
    cBitsCurrent := cBitsCurrent
    bits := z.BitsCurrent / 2 ^ cBitsCurrent
    BitsCurrent := z.BitsCurrent % 2 ^ cBitsCurrent }

/-! ## The history -/

def zgfx_history_buffer_ring_write (z : ZGFX_CONTEXT) (src : Bytes) : Except Halt ZGFX_CONTEXT :=
  if src.length = 0 then .ok z
  else
    let residue := src.length - z.HistoryBufferSize
    let index :=
      if src.length > z.HistoryBufferSize then (z.HistoryIndex + residue) % z.HistoryBufferSize
      else z.HistoryIndex
    let src := src.drop residue
    if index + src.length ≤ z.HistoryBufferSize then do
      let buffer ← z.HistoryBuffer.writeWithin z.HistoryBufferSize index src
      let next := index + src.length
      .ok { z with
        HistoryBuffer := buffer, HistoryIndex := if next = z.HistoryBufferSize then 0 else next }
    else do
      let front := z.HistoryBufferSize - index
      let buffer ← z.HistoryBuffer.writeWithin z.HistoryBufferSize index (src.take front)
      let buffer ← buffer.writeWithin z.HistoryBufferSize 0 (src.drop front)
      .ok { z with HistoryBuffer := buffer, HistoryIndex := src.length - front }

/-- The first copies of `zgfx_history_buffer_ring_read`: what the ring itself holds. -/
def ringCopy (z : ZGFX_CONTEXT) (offset bytes : Nat) : Except Halt Bytes :=
  let index := subU32 (z.HistoryIndex + z.HistoryBufferSize) offset % z.HistoryBufferSize
  if index + bytes ≤ z.HistoryBufferSize then
    z.HistoryBuffer.readWithin z.HistoryBufferSize index bytes
  else do
    let front := z.HistoryBufferSize - index
    let right ← z.HistoryBuffer.readWithin z.HistoryBufferSize index front
    let left ← z.HistoryBuffer.readWithin z.HistoryBufferSize 0 (bytes - front)
    .ok (right ++ left)

/-- The `do … while` behind them: what has been written is put behind itself. -/
structure Doubling where
  written : Bytes
  valid : Nat
  bytesLeft : Nat

def Doubling.round (d : Doubling) : Doubling :=
  let bytes := min d.valid d.bytesLeft
  ⟨d.written ++ d.written.take bytes, d.valid * 2, d.bytesLeft - bytes⟩

/-- The `count` bytes that are written to `dst`. -/
def zgfx_history_buffer_ring_read (z : ZGFX_CONTEXT) (offset count : Nat) : Except Halt Bytes :=
  if count = 0 then .ok []
  else do
    let bytes := min count offset
    let written ← ringCopy z offset bytes
    if count - bytes = 0 then .ok written
    else
      match Loop.doWhile (fun d => some (Doubling.round d)) (fun d => decide (0 < d.bytesLeft))
        count ⟨written, bytes, count - bytes⟩ with
      | none => .error .hang
      | some d => .ok d.written

/-! ## A segment -/

/-- `while (haveBits < prefixLength)`, `n` times. -/
def readPrefix (src : Bytes) : Nat → Nat → ZGFX_CONTEXT → Except Halt (Nat × ZGFX_CONTEXT)
  | 0, inPrefix, z => .ok (inPrefix, z)
  | n + 1, inPrefix, z => do
    let z ← zgfx_GetBits src z 1
    readPrefix src n (inPrefix * 2 + z.bits) z

/-- `while (zgfx->bits == 1)`: `count` and `extra`. -/
def readExtra (src : Bytes) : Nat → Nat → Nat → ZGFX_CONTEXT → Except Halt (Nat × Nat × ZGFX_CONTEXT)
  | 0, _, _, _ => .error .hang
  | n + 1, count, extra, z =>
    if z.bits = 1 then do
      let z ← zgfx_GetBits src z 1
      readExtra src n (u32 (count * 2)) (extra + 1) z
    else .ok (count, extra, z)

/-- The length of a match. -/
def readCount (src : Bytes) (fuel : Nat) (z : ZGFX_CONTEXT) : Except Halt (Nat × ZGFX_CONTEXT) := do
  let z ← zgfx_GetBits src z 1
  if z.bits = 0 then .ok (3, z)
  else do
    let z ← zgfx_GetBits src z 1
    let (count, extra, z) ← readExtra src fuel 4 2 z
    let z ← zgfx_GetBits src z extra
    .ok (u32 (count + z.bits), z)

/-- `Literal`. -/
def literal (z : ZGFX_CONTEXT) (c : UInt8) : Except Halt ZGFX_CONTEXT := do
  let buffer ← z.HistoryBuffer.writeWithin z.HistoryBufferSize z.HistoryIndex [c]
  let next := z.HistoryIndex + 1
  { z with
    HistoryBuffer := buffer
    HistoryIndex := if next = z.HistoryBufferSize then 0 else next }.emit [c]

/-- `Match`, once its length is known: both calls go through `OutputBuffer`. -/
def copyMatch (z : ZGFX_CONTEXT) (distance count : Nat) : Except Halt ZGFX_CONTEXT :=
  if z.OutputCount + count ≤ OutputBufferSize then do
    let bytes ← zgfx_history_buffer_ring_read z distance count
    let z ← zgfx_history_buffer_ring_write z bytes
    z.emit bytes
  else .error .outside

/-- `Unencoded`. -/
def unencoded (src : Bytes) (z : ZGFX_CONTEXT) : Except Halt ZGFX_CONTEXT := do
  let z ← zgfx_GetBits src z 15
  let count := z.bits
  let bytes ← sourceBytes src z.pbInputCurrent count
  let z ← { z with
    cBitsRemaining := subU32 z.cBitsRemaining z.cBitsCurrent
    cBitsCurrent := 0
    BitsCurrent := 0 }.emit bytes
  let z ← zgfx_history_buffer_ring_write z bytes
  .ok { z with
    pbInputCurrent := z.pbInputCurrent + count
    cBitsRemaining := subU32 z.cBitsRemaining (8 * count) }

/-- What is done with the row whose code has been read. -/
def act (src : Bytes) (fuel : Nat) (t : ZGFX_TOKEN) (z : ZGFX_CONTEXT) :
    Except Halt ZGFX_CONTEXT := do
  let z ← zgfx_GetBits src z t.valueBits
  if t.tokenType = 0 then literal z (UInt8.ofNat (t.valueBase + z.bits))
  else
    let distance := t.valueBase + z.bits
    if distance ≠ 0 then do
      let (count, z) ← readCount src fuel z
      copyMatch z distance count
    else unencoded src z

/-- The `for` over the table. -/
def search (src : Bytes) (fuel : Nat) :
    List ZGFX_TOKEN → Nat → Nat → ZGFX_CONTEXT → Except Halt ZGFX_CONTEXT
  | [], _, _, z => .ok z
  | t :: rows, haveBits, inPrefix, z => do
    let (inPrefix, z) ← readPrefix src (t.prefixLength - haveBits) inPrefix z
    if inPrefix = t.prefixCode then act src fuel t z
    else search src fuel rows (max haveBits t.prefixLength) inPrefix z

/-- `while (zgfx->cBitsRemaining)`. -/
def decodeTokens (src : Bytes) (fuel : Nat) (z : ZGFX_CONTEXT) : Except Halt ZGFX_CONTEXT :=
  match Loop.run (fun z => decide (z.cBitsRemaining ≠ 0))
    (fun z => search src fuel ZGFX_TOKEN_TABLE 0 0 z) fuel z with
  | none => .error .hang
  | some result => result

/-- The answer, and the context. -/
def zgfx_decompress_segment (fuel : Nat) (z : ZGFX_CONTEXT) (src : Bytes) (pbSegment cbSegment : Nat) :
    Except Halt (Int × ZGFX_CONTEXT) :=
  if cbSegment < 1 then .ok (-1, z)
  else
    match src[pbSegment]? with
    | none => .error .outside
    | some flags =>
      let pbSegment := pbSegment + 1
      let cbSegment := cbSegment - 1
      let z := { z with output := [] }
      if flags.toNat &&& PACKET_COMPRESSED = 0 then do
        let bytes ← sourceBytes src pbSegment cbSegment
        let z ← zgfx_history_buffer_ring_write z bytes
        let z ← z.emit bytes
        .ok (1, z)
      else
        -- with nothing behind the flags, `pbInputEnd` is the byte of the flags itself
        match src[pbSegment + cbSegment - 1]? with
        | none => .error .outside
        | some last => do
          let z ← decodeTokens src fuel { z with
            pbInputCurrent := pbSegment
            pbInputEnd := pbSegment + cbSegment - 1
            cBitsRemaining := subU32 (u32 (8 * subU32 cbSegment 1)) last.toNat
            cBitsCurrent := 0
            BitsCurrent := 0 }
          .ok (1, z)

/-! ## A message -/

/-- The segments of a multipart message, and what has been put behind one another in
`pConcatenated`, which has room for `uncompressedSize` bytes. The status of a segment is not looked
at. -/
def segments (fuel : Nat) (src : Bytes) (uncompressedSize : Nat) :
    Nat → Nat → Bytes → ZGFX_CONTEXT → Except Halt (Bytes × ZGFX_CONTEXT)
  | 0, _, dst, z => .ok (dst, z)
  | n + 1, segmentOffset, dst, z => do
    let size ← sourceBytes src segmentOffset 4
    let (_, z) ← zgfx_decompress_segment fuel z src (segmentOffset + 4) (ofLe size)
    if dst.length + z.OutputCount ≤ uncompressedSize then
      segments fuel src uncompressedSize n (segmentOffset + 4 + ofLe size) (dst ++ z.output) z
    else .error .outside

/-- The answer, what is at `*ppDstData` of the `*pDstSize` bytes there, and the context; memory is
found. -/
def zgfx_decompress (fuel : Nat) (z : ZGFX_CONTEXT) (src : Bytes) :
    Except Halt (Int × Option (Bytes × Nat) × ZGFX_CONTEXT) :=
  match src with
  | [] => .ok (-1, none, z)
  | descriptor :: _ =>
    if descriptor.toNat = ZGFX_SEGMENTED_SINGLE then do
      let (_, z) ← zgfx_decompress_segment fuel z src 1 (src.length - 1)
      .ok (1, some (z.output, z.OutputCount), z)
    else if descriptor.toNat = ZGFX_SEGMENTED_MULTIPART then do
      let segmentCount ← sourceBytes src 1 2
      let uncompressedSize ← sourceBytes src 3 4
      let (dst, z) ← segments fuel src (ofLe uncompressedSize) (ofLe segmentCount) 7 [] z
      .ok (1, some (dst, ofLe uncompressedSize), z)
    else .ok (-1, none, z)

end TiraRdp.Zgfx
