import TiraRdp.Rdp.Rdpei
import TiraRdp.Redirector.RecordReader

/-!
# `TouchAndPen`

`TouchAndPen::Send` (`projector/TouchAndPen.cpp:36-59`) on the frames that `wf_event_proc` gets from
the system (`Rdp/src/client/Windows/wf_event.c:403-432`), and the record that it makes of a frame.
The layout is that of a Win32 build: a `POINTER_INFO` is 88 bytes, and a `POINTER_DATA` a count,
four bytes of padding, and ten of them. `buf` is not initialised: `fresh` is what is in it.

A `TouchFrame` is what `GetPointerFrameInfo` answers for a touch: one pointer or more, up to ten,
under different numbers. In a `PenFrame` it is what `GetPointerPenInfo` answers that is sent.

Results:
* `touchRecord_eq`: a record of a touch frame holds its count and its pointers, behind them what was
  in `buf`.
* `Captured.handOver_record`: the reader of the records hands over the frame that was sent.
-/

namespace TiraRdp

open Lib TouchAndPenMsgReader

/-! ## Pointers in memory -/

/-- The word at an offset. -/
def wordAt (off : Nat) (bytes : Bytes) : Nat := ofLe ((bytes.drop off).take 4)

/-- The `POINTER_INFO` that stands there, as far as it is used. -/
def pointerInfoAt (bytes : Bytes) : Rdpei.POINTER_INFO where
  pointerId := wordAt 4 bytes
  pointerFlags := wordAt 12 bytes
  ptPixelLocation := (i32 (wordAt 24 bytes), i32 (wordAt 28 bytes))

/-- An array of them. -/
def pointerInfosAt : Nat → Bytes → List Rdpei.POINTER_INFO
  | 0, _ => []
  | count + 1, bytes => pointerInfoAt bytes :: pointerInfosAt count (bytes.drop 88)

/-- A `POINTER_INFO` as it is in memory. -/
structure PointerBlock where
  bytes : Bytes
  length_eq : bytes.length = 88

namespace PointerBlock

def pointerType (p : PointerBlock) : Nat := wordAt 0 p.bytes

def pointerId (p : PointerBlock) : Nat := wordAt 4 p.bytes

def frameId (p : PointerBlock) : Nat := wordAt 8 p.bytes

def info (p : PointerBlock) : Rdpei.POINTER_INFO := pointerInfoAt p.bytes

end PointerBlock

/-! ## Frames -/

structure TouchFrame where
  first : PointerBlock
  others : List PointerBlock
  length_lt : others.length < 10
  touch : first.pointerType = PT_TOUCH
  nodup : ((first :: others).map PointerBlock.pointerId).Nodup

def TouchFrame.pointers (frame : TouchFrame) : List PointerBlock := frame.first :: frame.others

structure PenFrame where
  first : PointerBlock
  others : List PointerBlock
  pen : first.pointerType = PT_PEN
  /-- what `GetPointerPenInfo` answers -/
  penInfo : Bytes
  penInfo_length : penInfo.length = 112
  penInfo_pen : wordAt 0 penInfo = PT_PEN

/-- What `wf_event_proc` gets for a message. -/
inductive Captured where
  | touch (frame : TouchFrame)
  | pen (frame : PenFrame)

def Captured.pointers : Captured → List PointerBlock
  | .touch frame => frame.pointers
  | .pen frame => frame.first :: frame.others

def Captured.penInfo : Captured → Bytes
  | .touch _ => []
  | .pen frame => frame.penInfo

/-- The contacts of a frame. -/
def Captured.contacts : Captured → Option (List Rdpei.POINTER_INFO)
  | .touch frame => some (frame.pointers.map PointerBlock.info)
  | .pen _ => none

/-! ## `Send` -/

/-- `lastFrameId` is compared as a `UINT32`. -/
structure TouchAndPen where
  lastFrameId : Nat

namespace TouchAndPen

/-- `lastFrameId(-1)`. -/
def new : TouchAndPen := ⟨2 ^ 32 - 1⟩

def sizeofPOINTER_DATA : Nat := 8 + 10 * 88

/-- `buf.pointers[i] = pointers[i]`, from `i` on. -/
def copyPointers (buf : Mem UInt8) (i : Nat) : List PointerBlock → Mem UInt8
  | [] => buf
  | p :: pointers => copyPointers (buf.write (8 + 88 * i) p.bytes) (i + 1) pointers

def touchRecord (fresh : Mem UInt8) (pointers : List PointerBlock) : Bytes :=
  (copyPointers (fresh.write 0 (le32 pointers.length)) 0 pointers).read 0 sizeofPOINTER_DATA

def penRecord (fresh : Mem UInt8) (penInfo : Bytes) : Bytes :=
  ((fresh.write 0 (le32 1)).write 8 penInfo).read 0 sizeofPOINTER_DATA

/-- `Send`, and what goes to the channel. There is a first pointer. -/
def Send (t : TouchAndPen) (fresh : Mem UInt8) (penInfo : Bytes) (pointers : List PointerBlock) :
    Option Bytes × TouchAndPen :=
  match pointers with
  | [] => (none, t)
  | first :: _ =>
    if t.lastFrameId = first.frameId then (none, t)
    else if first.pointerType = PT_TOUCH then (some (touchRecord fresh pointers), ⟨first.frameId⟩)
    else if first.pointerType = PT_PEN then (some (penRecord fresh penInfo), ⟨first.frameId⟩)
    else (none, ⟨first.frameId⟩)

/-- The frames that are sent of those that are captured, each with its record; a frame comes with
what is in `buf` then. -/
def sends (t : TouchAndPen) : List (Captured × Mem UInt8) → List (Captured × Bytes)
  | [] => []
  | (frame, fresh) :: captured =>
    match t.Send fresh frame.penInfo frame.pointers with
    | (none, t) => t.sends captured
    | (some record, t) => (frame, record) :: t.sends captured

end TouchAndPen

/-! ## The record of a frame -/

theorem wordAt_append {off : Nat} {bytes : Bytes} (h : off + 4 ≤ bytes.length) (rest : Bytes) :
    wordAt off (bytes ++ rest) = wordAt off bytes := by
  have hlength : 4 ≤ (bytes.drop off).length := by
    rw [List.length_drop]
    omega
  rw [wordAt, List.drop_append_of_le_length (by omega), List.take_append_of_le_length hlength,
    wordAt]

theorem pointerInfosAt_blocks (pointers : List PointerBlock) (rest : Bytes) :
    pointerInfosAt pointers.length (pointers.flatMap PointerBlock.bytes ++ rest) =
      pointers.map PointerBlock.info := by
  induction pointers with
  | nil => rfl
  | cons p pointers ih =>
    have hinfo (tail : Bytes) : pointerInfoAt (p.bytes ++ tail) = p.info := by
      have hlength := p.length_eq
      unfold PointerBlock.info pointerInfoAt
      rw [wordAt_append (by omega), wordAt_append (by omega), wordAt_append (by omega),
        wordAt_append (by omega)]
    rw [List.length_cons, List.flatMap_cons, List.append_assoc, pointerInfosAt, hinfo,
      List.drop_left' p.length_eq, ih, List.map_cons]

namespace TouchAndPen

theorem copyPointers_eq (buf : Mem UInt8) (i : Nat) (pointers : List PointerBlock) :
    copyPointers buf i pointers = buf.write (8 + 88 * i) (pointers.flatMap PointerBlock.bytes) := by
  induction pointers generalizing buf i with
  | nil =>
    funext j
    exact (buf.write_of_not_mem (Nat.lt_or_ge j (8 + 88 * i))).symm
  | cons p pointers ih =>
    have hnext : 8 + 88 * (i + 1) = 8 + 88 * i + p.bytes.length := by
      rw [p.length_eq]
      omega
    rw [copyPointers, ih, hnext, Mem.write_write_append, List.flatMap_cons]

theorem blocks_length (pointers : List PointerBlock) :
    (pointers.flatMap PointerBlock.bytes).length = 88 * pointers.length := by
  induction pointers with
  | nil => rfl
  | cons p pointers ih =>
    rw [List.flatMap_cons, List.length_append, ih, p.length_eq, List.length_cons]
    omega

/-- What is at the head of `buf`, and what is put behind the padding. -/
theorem record_eq (fresh : Mem UInt8) (count : Nat) {data : Bytes} (hdata : data.length ≤ 10 * 88) :
    ∃ padding rest, padding.length = 4 ∧
      ((fresh.write 0 (le32 count)).write 8 data).read 0 sizeofPOINTER_DATA =
        le32 count ++ padding ++ (data ++ rest) := by
  have hsize : sizeofPOINTER_DATA = 4 + 4 + (data.length + (10 * 88 - data.length)) := by
    rw [sizeofPOINTER_DATA]
    omega
  have hhead : ((fresh.write 0 (le32 count)).write 8 data).read 0 (4 + 4) =
      le32 count ++ (fresh.write 0 (le32 count)).read 4 4 := by
    rw [Mem.read_write_of_disjoint _ (Or.inl (show 0 + (4 + 4) ≤ 8 by decide)), Mem.read_add]
    congr 1
  refine ⟨(fresh.write 0 (le32 count)).read 4 4,
    ((fresh.write 0 (le32 count)).write 8 data).read (8 + data.length) (10 * 88 - data.length),
    Mem.read_length _ 4 4, ?_⟩
  rw [hsize, Mem.read_add, hhead, Mem.read_add, Nat.zero_add, Mem.read_write_same]

/-- **The record of a touch frame.** -/
theorem touchRecord_eq (fresh : Mem UInt8) {pointers : List PointerBlock}
    (h : pointers.length ≤ 10) :
    ∃ padding rest, padding.length = 4 ∧
      touchRecord fresh pointers =
        le32 pointers.length ++ padding ++ (pointers.flatMap PointerBlock.bytes ++ rest) := by
  rw [touchRecord, copyPointers_eq]
  refine record_eq fresh pointers.length ?_
  rw [blocks_length]
  omega

/-- What is sent depends on the type of the first pointer. -/
theorem Send_some {t t' : TouchAndPen} {fresh : Mem UInt8} {penInfo record : Bytes}
    {first : PointerBlock}
    {others : List PointerBlock} (h : t.Send fresh penInfo (first :: others) = (some record, t')) :
    first.pointerType = PT_TOUCH ∧ record = touchRecord fresh (first :: others) ∨
      first.pointerType = PT_PEN ∧ record = penRecord fresh penInfo := by
  rw [Send] at h
  split_ifs at h with hlast htouch hpen
  · cases (Prod.mk.inj h).1
  · exact .inl ⟨htouch, (Option.some.inj (Prod.mk.inj h).1).symm⟩
  · exact .inr ⟨hpen, (Option.some.inj (Prod.mk.inj h).1).symm⟩
  · cases (Prod.mk.inj h).1

theorem Send_length {t t' : TouchAndPen} {fresh : Mem UInt8} {penInfo record : Bytes}
    {pointers : List PointerBlock} (h : t.Send fresh penInfo pointers = (some record, t')) :
    record.length = sizeofPOINTER_DATA := by
  cases pointers with
  | nil => cases (Prod.mk.inj h).1
  | cons first others =>
    obtain ⟨-, hrecord⟩ | ⟨-, hrecord⟩ := Send_some h
    · rw [hrecord, touchRecord, Mem.read_length]
    · rw [hrecord, penRecord, Mem.read_length]

end TouchAndPen

/-- The touch frame that an event passes on. -/
def EventCall.contacts : EventCall → Option (List Rdpei.POINTER_INFO)
  | .OnTouchFrameReceivedEvent pointers count => some (pointerInfosAt count.toNat pointers)
  | _ => none

/-- What is in a record that holds this. -/
theorem record_fields {count : Nat} (hcount : count < 2 ^ 31) {padding : Bytes}
    (hpadding : padding.length = 4) (data : Bytes) :
    TouchAndPenMsgReader.count (le32 count ++ padding ++ data) = count ∧
      TouchAndPenMsgReader.pointers (le32 count ++ padding ++ data) = data := by
  constructor
  · have htake : (le32 count ++ padding ++ data).take 4 = le32 count := by
      rw [List.append_assoc]
      exact List.take_left' (le32_length count)
    rw [TouchAndPenMsgReader.count, htake, ofLe_le32 (by omega)]
    exact i32_of_lt (by omega) (by omega)
  · refine List.drop_left' ?_
    rw [List.length_append, le32_length, hpadding]

/-- The first word of what is in a record that holds this. -/
theorem record_pointerType {count : Nat} (hcount : count < 2 ^ 31) {padding data rest : Bytes}
    (hpadding : padding.length = 4) (hdata : 4 ≤ data.length) :
    TouchAndPenMsgReader.pointerType (le32 count ++ padding ++ (data ++ rest)) = wordAt 0 data := by
  rw [TouchAndPenMsgReader.pointerType, (record_fields hcount hpadding _).2]
  have hword : 0 + 4 ≤ data.length := by omega
  exact wordAt_append hword rest

theorem PT_PEN_ne_PT_TOUCH : PT_PEN ≠ PT_TOUCH := by decide

theorem TouchFrame.handOver_record (frame : TouchFrame) (fresh : Mem UInt8) :
    ((Workloop true true).handOver (TouchAndPen.touchRecord fresh frame.pointers)).bind
      EventCall.contacts = some (frame.pointers.map PointerBlock.info) := by
  have hlength : frame.pointers.length ≤ 10 := frame.length_lt
  have hblocks := TouchAndPen.blocks_length frame.pointers
  have hpos : 0 < frame.pointers.length := Nat.succ_pos _
  obtain ⟨padding, rest, hpadding, hrecord⟩ := TouchAndPen.touchRecord_eq fresh hlength
  have hfirst : wordAt 0 (frame.pointers.flatMap PointerBlock.bytes) = PT_TOUCH := by
    have hbytes := frame.first.length_eq
    rw [TouchFrame.pointers, List.flatMap_cons, wordAt_append (by omega)]
    exact frame.touch
  have htype : TouchAndPenMsgReader.pointerType (TouchAndPen.touchRecord fresh frame.pointers) =
      PT_TOUCH := by
    rw [hrecord, record_pointerType (by omega) hpadding (by omega), hfirst]
  obtain ⟨hcount, hpointers⟩ := record_fields (show frame.pointers.length < 2 ^ 31 by omega)
    hpadding (frame.pointers.flatMap PointerBlock.bytes ++ rest)
  rw [Workloop]
  simp only [htype, if_true, Option.bind_some, EventCall.contacts]
  rw [hrecord, hcount, hpointers, Int.toNat_natCast, pointerInfosAt_blocks]

theorem PenFrame.handOver_record (frame : PenFrame) (fresh : Mem UInt8) :
    ((Workloop true true).handOver (TouchAndPen.penRecord fresh frame.penInfo)).bind
      EventCall.contacts = none := by
  have hlength := frame.penInfo_length
  obtain ⟨padding, rest, hpadding, hrecord⟩ :=
    TouchAndPen.record_eq fresh 1 (show frame.penInfo.length ≤ 10 * 88 by omega)
  have htype : TouchAndPenMsgReader.pointerType (TouchAndPen.penRecord fresh frame.penInfo) =
      PT_PEN := by
    rw [TouchAndPen.penRecord, hrecord, record_pointerType (by decide) hpadding (by omega),
      frame.penInfo_pen]
  rw [Workloop]
  simp only [htype, if_neg PT_PEN_ne_PT_TOUCH, if_true, Option.bind_some, EventCall.contacts]

/-- **The reader hands over the frame that was sent.** -/
theorem Captured.handOver_record {t t' : TouchAndPen} {fresh : Mem UInt8} {frame : Captured}
    {record : Bytes} (h : t.Send fresh frame.penInfo frame.pointers = (some record, t')) :
    ((Workloop true true).handOver record).bind EventCall.contacts = frame.contacts := by
  cases frame with
  | touch frame =>
    obtain ⟨-, hrecord⟩ | ⟨hpen, -⟩ := TouchAndPen.Send_some h
    · rw [hrecord]
      exact frame.handOver_record fresh
    · exact absurd (hpen.symm.trans frame.touch) PT_PEN_ne_PT_TOUCH
  | pen frame =>
    obtain ⟨htouch, -⟩ | ⟨-, hrecord⟩ := TouchAndPen.Send_some h
    · exact absurd (frame.pen.symm.trans htouch) PT_PEN_ne_PT_TOUCH
    · rw [hrecord]
      exact frame.handOver_record fresh

namespace TouchAndPen

theorem sends_of_some {t t' : TouchAndPen} {frame : Captured} {fresh : Mem UInt8} {record : Bytes}
    (h : t.Send fresh frame.penInfo frame.pointers = (some record, t'))
    (captured : List (Captured × Mem UInt8)) :
    t.sends ((frame, fresh) :: captured) = (frame, record) :: t'.sends captured := by
  rw [sends, h]

/-- What is sent is the record of a frame, of the size that the reader takes. -/
theorem sends_spec (t : TouchAndPen) (captured : List (Captured × Mem UInt8)) :
    ∀ x ∈ t.sends captured, x.2.length = sizeofPOINTER_DATA ∧
      ((Workloop true true).handOver x.2).bind EventCall.contacts = x.1.contacts := by
  induction captured generalizing t with
  | nil => nofun
  | cons frame captured ih =>
    obtain ⟨frame, fresh⟩ := frame
    rw [sends]
    split
    · exact ih _
    · next hsend =>
      intro x hx
      rcases List.mem_cons.mp hx with rfl | hx
      · exact ⟨Send_length hsend, Captured.handOver_record hsend⟩
      · exact ih _ x hx

end TouchAndPen

end TiraRdp
