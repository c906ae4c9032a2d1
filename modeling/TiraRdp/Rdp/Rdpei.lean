import TiraRdp.Rdp.RdpeiCommon
import TiraRdp.Rdp.Stream

/-!
# `rdpei_main`: touch and pen events

`rdpei_send_touch_event_pdu_new` and `rdpei_send_pen_event_pdu_new`
(`Rdp/src/channels/rdpei/client/rdpei_main.c:303-540`) with the header of `rdpei_send_pdu`. What is
written is the list of its fields, each as its writer has answered it: nobody looks at the answers,
and a field that was refused is not in the stream (`stored`).

`readEvent` says what the bytes mean: it reads the fields with the readers of `rdpei_common`, in the
order in which they are documented, as many as the counts and `fieldsPresent` say.

Results:
* `touch_pdu_read`: what is read of a touch PDU, whatever its contacts.
* `touch_pdu_roundtrip_iff`: it is what was sent, and no field has been left out, exactly when the
  offset is below 2^29 microseconds and no coordinate is from -31 to -1.
* `pen_pdu_roundtrip_iff`: no field of a pen PDU is left out, and it is read to its end, exactly
  when the tilts that are announced are not negative and the two times can be written.
-/

namespace TiraRdp.Rdpei

open Lib Counted

/-! ## Flags -/

def POINTER_FLAG_INRANGE : Nat := 0x00000002
def POINTER_FLAG_INCONTACT : Nat := 0x00000004
def POINTER_FLAG_CANCELED : Nat := 0x00008000
def POINTER_FLAG_DOWN : Nat := 0x00010000
def POINTER_FLAG_UPDATE : Nat := 0x00020000
def POINTER_FLAG_UP : Nat := 0x00040000

def CONTACT_FLAG_DOWN : Nat := 0x0001
def CONTACT_FLAG_UPDATE : Nat := 0x0002
def CONTACT_FLAG_UP : Nat := 0x0004
def CONTACT_FLAG_INRANGE : Nat := 0x0008
def CONTACT_FLAG_INCONTACT : Nat := 0x0010
def CONTACT_FLAG_CANCELED : Nat := 0x0020

def PEN_FLAG_BARREL : Nat := 0x00000001
def PEN_FLAG_INVERTED : Nat := 0x00000002
def PEN_FLAG_ERASER : Nat := 0x00000004

/-- `if (flags & from) result |= to`, line by line. -/
def translate (lines : List (Nat × Nat)) (flags : Nat) : Nat :=
  lines.foldl (fun result line => if flags &&& line.1 ≠ 0 then result ||| line.2 else result) 0

def pointer_flag_to_contact_flags (pointer_flags : Nat) : Nat :=
  translate [(POINTER_FLAG_DOWN, CONTACT_FLAG_DOWN), (POINTER_FLAG_UPDATE, CONTACT_FLAG_UPDATE),
    (POINTER_FLAG_UP, CONTACT_FLAG_UP), (POINTER_FLAG_INRANGE, CONTACT_FLAG_INRANGE),
    (POINTER_FLAG_INCONTACT, CONTACT_FLAG_INCONTACT), (POINTER_FLAG_CANCELED, CONTACT_FLAG_CANCELED)]
    pointer_flags

def pen_flag_to_rdp_pen_flag (flag : Nat) : Nat :=
  translate [(PEN_FLAG_BARREL, 1), (PEN_FLAG_ERASER, 2), (PEN_FLAG_INVERTED, 4)] flag

def CONTACT_DATA_CONTACTRECT_PRESENT : Nat := 0x0001

def PEN_CONTACT_PENFLAGS_PRESENT : Nat := 0x0001
def PEN_CONTACT_PRESSURE_PRESENT : Nat := 0x0002
def PEN_CONTACT_ROTATION_PRESENT : Nat := 0x0004
def PEN_CONTACT_TILTX_PRESENT : Nat := 0x0008
def PEN_CONTACT_TILTY_PRESENT : Nat := 0x0010

def PEN_MASK_PRESSURE : Nat := 0x0001
def PEN_MASK_ROTATION : Nat := 0x0002
def PEN_MASK_TILT_X : Nat := 0x0004
def PEN_MASK_TILT_Y : Nat := 0x0008

/-- The mask is taken as a `UINT16`, and so is the result. -/
def pen_mask_to_fields_present (mask : Nat) : Nat :=
  (PEN_CONTACT_PENFLAGS_PRESENT ||| (mask % 2 ^ 16) <<< 1) % 2 ^ 16

/-! ## What is sent -/

structure POINTER_INFO where
  pointerId : Nat
  pointerFlags : Nat
  ptPixelLocation : Int × Int
  deriving Repr, DecidableEq

structure POINTER_PEN_INFO where
  pointerInfo : POINTER_INFO
  penFlags : Nat
  penMask : Nat
  pressure : Nat
  rotation : Nat
  tiltX : Int
  tiltY : Int
  deriving Repr, DecidableEq

/-- An `INT32` as the `UINT32` that a writer takes. -/
def toUINT32 (value : Int) : Nat := (value % 2 ^ 32).toNat

/-- What is in the stream of the fields that were to be written. -/
def stored (fields : List (Option Bytes)) : Bytes := fields.flatMap (·.getD [])

/-- The body of the loop of `rdpei_write_touch_frame_new`. -/
def touchContact (pointer : POINTER_INFO) : List (Option Bytes) :=
  let (x, y) := pointer.ptPixelLocation
  [some [BYTE (pointer.pointerId % 10)], rdpei_write_2byte_unsigned CONTACT_DATA_CONTACTRECT_PRESENT,
    rdpei_write_4byte_signed x, rdpei_write_4byte_signed y,
    rdpei_write_4byte_unsigned (pointer_flag_to_contact_flags pointer.pointerFlags),
    rdpei_write_2byte_signed (x - 2), rdpei_write_2byte_signed (y - 2),
    rdpei_write_2byte_signed (x + 2), rdpei_write_2byte_signed (y + 2)]

/-- `if (fieldsPresent & flag) write`. -/
def ifPresent (fieldsPresent flag : Nat) (field : Option Bytes) : List (Option Bytes) :=
  if fieldsPresent &&& flag ≠ 0 then [field] else []

/-- The body of the loop of `rdpei_write_pen_frame_new`. -/
def penContact (pen : POINTER_PEN_INFO) : List (Option Bytes) :=
  let (x, y) := pen.pointerInfo.ptPixelLocation
  let fieldsPresent := pen_mask_to_fields_present pen.penMask
  [some [BYTE 0], rdpei_write_2byte_unsigned fieldsPresent, rdpei_write_4byte_signed x,
    rdpei_write_4byte_signed y,
    rdpei_write_4byte_unsigned (pointer_flag_to_contact_flags pen.pointerInfo.pointerFlags)] ++
    ifPresent fieldsPresent PEN_CONTACT_PENFLAGS_PRESENT
      (rdpei_write_4byte_unsigned (pen_flag_to_rdp_pen_flag pen.penFlags)) ++
    ifPresent fieldsPresent PEN_CONTACT_PRESSURE_PRESENT (rdpei_write_4byte_unsigned pen.pressure) ++
    ifPresent fieldsPresent PEN_CONTACT_ROTATION_PRESENT (rdpei_write_2byte_unsigned pen.rotation) ++
    ifPresent fieldsPresent PEN_CONTACT_TILTX_PRESENT
      (rdpei_write_2byte_unsigned (toUINT32 pen.tiltX)) ++
    ifPresent fieldsPresent PEN_CONTACT_TILTY_PRESENT
      (rdpei_write_2byte_unsigned (toUINT32 pen.tiltY))

/-- What the allocations answer: `Stream_New`, and the growth of a stream. -/
structure Heap where
  stream_new : Bool
  realloc : Bool

def RDPINPUT_HEADER_LENGTH : Nat := 6
def EVENTID_TOUCH : Nat := 0x0003
def EVENTID_PEN : Nat := 0x0008

/-- `rdpei_write_touch_frame_new` and `rdpei_write_pen_frame_new`, up to their loops: `none` when
the stream would have to grow and cannot. -/
def writeFrame (heap : Heap) (capacity position count offset : Nat)
    (contacts : List (Option Bytes)) :
    Option (List (Option Bytes)) :=
  let head :=
    [rdpei_write_2byte_unsigned count, rdpei_write_8byte_unsigned (offset * 1000 % 2 ^ 64)]
  if capacity < position + (stored head).length + count * 64 ∧ heap.realloc = false then none
  else some (head ++ contacts)

def rdpei_write_touch_frame_new (heap : Heap) (capacity position : Nat)
    (pointers : List POINTER_INFO)
    (offset : Nat) : Option (List (Option Bytes)) :=
  writeFrame heap capacity position pointers.length offset (pointers.flatMap touchContact)

def rdpei_write_pen_frame_new (heap : Heap) (capacity position : Nat)
    (pen_info : List POINTER_PEN_INFO)
    (offset : Nat) : Option (List (Option Bytes)) :=
  writeFrame heap capacity position pen_info.length offset (pen_info.flatMap penContact)

/-- `rdpei_send_pdu`: the bytes for the channel. -/
def rdpei_send_pdu (eventId : Nat) (fields : List (Option Bytes)) : Bytes :=
  le16 eventId ++ le32 (RDPINPUT_HEADER_LENGTH + (stored fields).length) ++ stored fields

/-- `rdpei_send_touch_event_pdu_new` and `rdpei_send_pen_event_pdu_new`, up to the frame that they
write and the event that they send. -/
def sendEvent (heap : Heap) (eventId count offset : Nat)
    (writeFrame : Nat → Nat → Option (List (Option Bytes))) : Nat × Option Bytes :=
  if heap.stream_new = false then (CHANNEL_RC_NO_MEMORY, none)
  else
    let head := [rdpei_write_4byte_unsigned (offset % 2 ^ 32), rdpei_write_2byte_unsigned 1]
    match writeFrame (64 + count * 64) (RDPINPUT_HEADER_LENGTH + (stored head).length) with
    | none => (CHANNEL_RC_NO_MEMORY, none)
    | some frame => (CHANNEL_RC_OK, some (rdpei_send_pdu eventId (head ++ frame)))

def rdpei_send_touch_event_pdu_new (heap : Heap) (pointers : List POINTER_INFO) (offset : Nat) :
    Nat × Option Bytes :=
  sendEvent heap EVENTID_TOUCH pointers.length offset fun capacity position =>
    rdpei_write_touch_frame_new heap capacity position pointers offset

def rdpei_send_pen_event_pdu_new (heap : Heap) (pen : POINTER_PEN_INFO) (offset : Nat) :
    Nat × Option Bytes :=
  sendEvent heap EVENTID_PEN 1 offset fun capacity position =>
    rdpei_write_pen_frame_new heap capacity position [pen] offset

/-! ## What is read -/

def readByte : Bytes → Option (Nat × Bytes)
  | [] => none
  | byte :: s => some (byte.toNat, s)

/-- `n` items, one after the other. -/
def readMany {α : Type} (read : Bytes → Option (α × Bytes)) : Nat → Bytes → Option (List α × Bytes)
  | 0, s => some ([], s)
  | n + 1, s => do
    let (item, s) ← read s
    let (items, s) ← readMany read n s
    some (item :: items, s)

/-- A field that is there if `fieldsPresent` says so. -/
def readIf {α : Type} (fieldsPresent flag : Nat) (read : Bytes → Option (α × Bytes)) (s : Bytes) :
    Option (Option α × Bytes) :=
  if fieldsPresent &&& flag ≠ 0 then (read s).map fun (x, s) => (some x, s) else some (none, s)

structure ContactRect where
  left : Int
  top : Int
  right : Int
  bottom : Int
  deriving Repr, DecidableEq

structure TouchContact where
  contactId : Nat
  x : Int
  y : Int
  contactFlags : Nat
  contactRect : Option ContactRect
  deriving Repr, DecidableEq

structure PenContact where
  contactId : Nat
  x : Int
  y : Int
  contactFlags : Nat
  penFlags : Option Nat
  pressure : Option Nat
  rotation : Option Nat
  tiltX : Option Nat
  tiltY : Option Nat
  deriving Repr, DecidableEq

structure Frame (κ : Type) where
  frameOffset : Nat
  contacts : List κ
  deriving Repr, DecidableEq

structure EventPdu (κ : Type) where
  encodeTime : Nat
  frames : List (Frame κ)
  deriving Repr, DecidableEq

def readContactRect (s : Bytes) : Option (ContactRect × Bytes) := do
  let (left, s) ← rdpei_read_2byte_signed s
  let (top, s) ← rdpei_read_2byte_signed s
  let (right, s) ← rdpei_read_2byte_signed s
  let (bottom, s) ← rdpei_read_2byte_signed s
  some (⟨left, top, right, bottom⟩, s)

def readTouchContact (s : Bytes) : Option (TouchContact × Bytes) := do
  let (contactId, s) ← readByte s
  let (fieldsPresent, s) ← rdpei_read_2byte_unsigned s
  let (x, s) ← rdpei_read_4byte_signed s
  let (y, s) ← rdpei_read_4byte_signed s
  let (contactFlags, s) ← rdpei_read_4byte_unsigned s
  let (contactRect, s) ← readIf fieldsPresent CONTACT_DATA_CONTACTRECT_PRESENT readContactRect s
  some (⟨contactId, x, y, contactFlags, contactRect⟩, s)

def readPenContact (s : Bytes) : Option (PenContact × Bytes) := do
  let (contactId, s) ← readByte s
  let (fieldsPresent, s) ← rdpei_read_2byte_unsigned s
  let (x, s) ← rdpei_read_4byte_signed s
  let (y, s) ← rdpei_read_4byte_signed s
  let (contactFlags, s) ← rdpei_read_4byte_unsigned s
  let (penFlags, s) ← readIf fieldsPresent PEN_CONTACT_PENFLAGS_PRESENT rdpei_read_4byte_unsigned s
  let (pressure, s) ← readIf fieldsPresent PEN_CONTACT_PRESSURE_PRESENT rdpei_read_4byte_unsigned s
  let (rotation, s) ← readIf fieldsPresent PEN_CONTACT_ROTATION_PRESENT rdpei_read_2byte_unsigned s
  let (tiltX, s) ← readIf fieldsPresent PEN_CONTACT_TILTX_PRESENT rdpei_read_2byte_unsigned s
  let (tiltY, s) ← readIf fieldsPresent PEN_CONTACT_TILTY_PRESENT rdpei_read_2byte_unsigned s
  some (⟨contactId, x, y, contactFlags, penFlags, pressure, rotation, tiltX, tiltY⟩, s)

section Read

variable {κ : Type}

def readFrame (readContact : Bytes → Option (κ × Bytes)) (s : Bytes) :
    Option (Frame κ × Bytes) := do
  let (contactCount, s) ← rdpei_read_2byte_unsigned s
  let (frameOffset, s) ← rdpei_read_8byte_unsigned s
  let (contacts, s) ← readMany readContact contactCount s
  some (⟨frameOffset, contacts⟩, s)

/-- The bytes behind the header. -/
def readEvent (readContact : Bytes → Option (κ × Bytes)) (s : Bytes) :
    Option (EventPdu κ × Bytes) := do
  let (encodeTime, s) ← rdpei_read_4byte_unsigned s
  let (frameCount, s) ← rdpei_read_2byte_unsigned s
  let (frames, s) ← readMany (readFrame readContact) frameCount s
  some (⟨encodeTime, frames⟩, s)

end Read

/-! ## The events -/

/-- The fields of an event, in the order in which they are written. -/
def eventFields (count offset : Nat) (contacts : List (Option Bytes)) : List (Option Bytes) :=
  [rdpei_write_4byte_unsigned (offset % 2 ^ 32), rdpei_write_2byte_unsigned 1,
    rdpei_write_2byte_unsigned count, rdpei_write_8byte_unsigned (offset * 1000 % 2 ^ 64)] ++ contacts

section Events

variable {fields : List (Option Bytes)} {field : Option Bytes} {rest : Bytes}

theorem stored_nil_append (rest : Bytes) : stored [] ++ rest = rest := rfl

theorem stored_cons_append (field : Option Bytes) (fields : List (Option Bytes)) (rest : Bytes) :
    stored (field :: fields) ++ rest = field.getD [] ++ (stored fields ++ rest) := by
  rw [stored, List.flatMap_cons, List.append_assoc]
  rfl

theorem stored_append (fields more : List (Option Bytes)) :
    stored (fields ++ more) = stored fields ++ stored more :=
  List.flatMap_append

theorem write_2byte_length_le (value : Nat) :
    ((rdpei_write_2byte_unsigned value).getD []).length ≤ 2 := by
  unfold rdpei_write_2byte_unsigned
  split_ifs
  all_goals simp

theorem write_4byte_length_le (value : Nat) :
    ((rdpei_write_4byte_unsigned value).getD []).length ≤ 4 := by
  unfold rdpei_write_4byte_unsigned
  split_ifs
  all_goals simp

theorem write_8byte_length_le (value : Nat) :
    ((rdpei_write_8byte_unsigned value).getD []).length ≤ 8 := by
  unfold rdpei_write_8byte_unsigned
  split_ifs
  all_goals simp

/-- **An event is sent as soon as its stream is there**: the stream never has to grow. -/
theorem sendEvent_eq {heap : Heap} (hnew : heap.stream_new = true) (eventId count offset : Nat)
    (contacts : List (Option Bytes)) :
    sendEvent heap eventId count offset
        (fun capacity position => writeFrame heap capacity position count offset contacts) =
      (CHANNEL_RC_OK, some (rdpei_send_pdu eventId (eventFields count offset contacts))) := by
  have hfour := write_4byte_length_le (offset % 2 ^ 32)
  have hone := write_2byte_length_le 1
  have hcount := write_2byte_length_le count
  have height := write_8byte_length_le (offset * 1000 % 2 ^ 64)
  unfold sendEvent writeFrame
  rw [hnew, if_neg (by decide)]
  dsimp only
  rw [if_neg]
  · rfl
  · rintro ⟨hlt, -⟩
    simp only [stored, List.flatMap_cons, List.flatMap_nil, List.append_nil, List.length_append,
      RDPINPUT_HEADER_LENGTH] at hlt
    omega

/-- A reader goes on with what has been read. -/
theorem reads_bind {α β : Type} {x : Option α} {a : α} (h : x = some a) (f : α → Option β) :
    (x >>= f) = f a := by
  rw [h]
  rfl

theorem readIf_of_present {α : Type} {read : Bytes → Option (α × Bytes)} {fieldsPresent flag : Nat}
    {bytes rest : Bytes} {x : α} (hpresent : fieldsPresent &&& flag ≠ 0)
    (h : read bytes = some (x, rest)) :
    readIf fieldsPresent flag read bytes = some (some x, rest) := by
  rw [readIf, if_pos hpresent, h]
  rfl

theorem readByte_BYTE {value : Nat} (h : value < 256) (rest : Bytes) :
    readByte ((some [BYTE value]).getD [] ++ rest) = some (value, rest) := by
  have hbyte : (BYTE value).toNat = value := by
    rw [BYTE, UInt8.toNat_ofNat']
    exact Nat.mod_eq_of_lt h
  show some ((BYTE value).toNat, rest) = _
  rw [hbyte]

/-- Flags stay below the highest bit that is set. -/
theorem translate_lt {lines : List (Nat × Nat)} {k : Nat} (h : ∀ line ∈ lines, line.2 < 2 ^ k)
    (flags : Nat) : translate lines flags < 2 ^ k := by
  have hfold (result : Nat) (hresult : result < 2 ^ k) :
      lines.foldl (fun result line => if flags &&& line.1 ≠ 0 then result ||| line.2 else result) result <
        2 ^ k := by
    induction lines generalizing result with
    | nil => exact hresult
    | cons line lines ih =>
      have hline := h line List.mem_cons_self
      refine ih (fun l hl => h l (List.mem_cons_of_mem _ hl)) _ ?_
      dsimp only
      split_ifs
      · exact Nat.or_lt_two_pow hresult hline
      · exact hresult
  exact hfold 0 (Nat.two_pow_pos k)

theorem contact_flags_lt (flags : Nat) : pointer_flag_to_contact_flags flags < 2 ^ 6 :=
  translate_lt (by decide) flags

theorem pen_flags_lt (flags : Nat) : pen_flag_to_rdp_pen_flag flags < 2 ^ 3 :=
  translate_lt (by decide) flags

/-- The contacts, one after the other. -/
theorem readMany_stored {α κ : Type} {readContact : Bytes → Option (κ × Bytes)}
    {fields : α → List (Option Bytes)} {contact : α → κ} {items : List α}
    (h : ∀ item ∈ items, ∀ rest, readContact (stored (fields item) ++ rest) = some (contact item, rest))
    (rest : Bytes) :
    readMany readContact items.length (stored (items.flatMap fields) ++ rest) =
      some (items.map contact, rest) := by
  induction items with
  | nil => rfl
  | cons item items ih =>
    have hitem := h item List.mem_cons_self (stored (items.flatMap fields) ++ rest)
    have hitems := ih fun item hitem => h item (List.mem_cons_of_mem _ hitem)
    rw [List.flatMap_cons, stored_append, List.append_assoc, List.length_cons, readMany]
    simp only [Option.bind_eq_bind, hitem, hitems, Option.bind_some, List.map_cons]

/-- **An event whose times are written** is read as one frame. -/
theorem readEvent_stored {α κ : Type} {readContact : Bytes → Option (κ × Bytes)}
    {fields : α → List (Option Bytes)} {offset : Nat} (contact : α → κ) (items : List α)
    (h : ∀ item ∈ items, ∀ rest, readContact (stored (fields item) ++ rest) = some (contact item, rest))
    (hcount : items.length ≤ 0x7FFF) (htime : offset % 2 ^ 32 ≤ 0x3FFFFF)
    (hoffset : offset * 1000 % 2 ^ 64 ≤ 0x1FFFFFFFFFFFFF) :
    readEvent readContact (stored (eventFields items.length offset (items.flatMap fields))) =
      some (⟨offset % 2 ^ 32, [⟨kept (offset * 1000 % 2 ^ 64), items.map contact⟩]⟩, []) := by
  have hcontacts := readMany_stored h []
  rw [List.append_nil] at hcontacts
  have hframe : readFrame readContact (stored ([rdpei_write_2byte_unsigned items.length,
      rdpei_write_8byte_unsigned (offset * 1000 % 2 ^ 64)] ++ items.flatMap fields)) =
        some (⟨kept (offset * 1000 % 2 ^ 64), items.map contact⟩, []) := by
    rw [stored_append, stored_cons_append, stored_cons_append, stored_nil_append]
    simp only [readFrame, Option.bind_eq_bind, (carries_2byte_unsigned hcount).reads,
      (carries_8byte_unsigned hoffset).reads, Option.bind_some, hcontacts]
  have hfields : eventFields items.length offset (items.flatMap fields) =
      [rdpei_write_4byte_unsigned (offset % 2 ^ 32), rdpei_write_2byte_unsigned 1] ++
        ([rdpei_write_2byte_unsigned items.length,
          rdpei_write_8byte_unsigned (offset * 1000 % 2 ^ 64)] ++ items.flatMap fields) := rfl
  rw [hfields, stored_append, stored_cons_append, stored_cons_append, stored_nil_append]
  simp only [readEvent, readMany, Option.bind_eq_bind, (carries_4byte_unsigned htime).reads,
    (carries_2byte_unsigned (show 1 ≤ 0x7FFF by decide)).reads, Option.bind_some, hframe]

end Events

/-! ## Touch -/

section Touch

variable {pointer : POINTER_INFO} {pointers : List POINTER_INFO} {offset : Nat}

/-- The contact of a pointer, at `(x, y)`. -/
def POINTER_INFO.contactAt (pointer : POINTER_INFO) (x y : Int) : TouchContact where
  contactId := pointer.pointerId % 10
  x := x
  y := y
  contactFlags := pointer_flag_to_contact_flags pointer.pointerFlags
  contactRect := some ⟨pointer.ptPixelLocation.1 - 2, pointer.ptPixelLocation.2 - 2,
    pointer.ptPixelLocation.1 + 2, pointer.ptPixelLocation.2 + 2⟩

/-- What is sent. -/
def POINTER_INFO.contact (pointer : POINTER_INFO) : TouchContact :=
  pointer.contactAt pointer.ptPixelLocation.1 pointer.ptPixelLocation.2

/-- What is read. -/
def POINTER_INFO.heard (pointer : POINTER_INFO) : TouchContact :=
  pointer.contactAt (Rdpei.heard pointer.ptPixelLocation.1) (Rdpei.heard pointer.ptPixelLocation.2)

/-- A rectangle around the pixel can be written. -/
def POINTER_INFO.OnScreen (pointer : POINTER_INFO) : Prop :=
  pointer.ptPixelLocation.1.natAbs + 2 ≤ 0x3FFF ∧ pointer.ptPixelLocation.2.natAbs + 2 ≤ 0x3FFF

/-- Four sides that are written are read. -/
theorem readContactRect_stored {left top right bottom : Int} (hleft : left.natAbs ≤ 0x3FFF)
    (htop : top.natAbs ≤ 0x3FFF) (hright : right.natAbs ≤ 0x3FFF) (hbottom : bottom.natAbs ≤ 0x3FFF)
    (rest : Bytes) :
    readContactRect (stored [rdpei_write_2byte_signed left, rdpei_write_2byte_signed top,
      rdpei_write_2byte_signed right, rdpei_write_2byte_signed bottom] ++ rest) =
      some (⟨left, top, right, bottom⟩, rest) := by
  rw [stored_cons_append, stored_cons_append, stored_cons_append, stored_cons_append,
    stored_nil_append]
  refine (reads_bind ((carries_2byte_signed hleft).reads _) _).trans ?_
  refine (reads_bind ((carries_2byte_signed htop).reads _) _).trans ?_
  refine (reads_bind ((carries_2byte_signed hright).reads _) _).trans ?_
  exact reads_bind ((carries_2byte_signed hbottom).reads rest) _

theorem readTouchContact_stored (h : pointer.OnScreen) (rest : Bytes) :
    readTouchContact (stored (touchContact pointer) ++ rest) = some (pointer.heard, rest) := by
  obtain ⟨hx, hy⟩ := h
  have hflags := contact_flags_lt pointer.pointerFlags
  have hid : pointer.pointerId % 10 < 256 := by omega
  have hpresent : CONTACT_DATA_CONTACTRECT_PRESENT ≤ 0x7FFF := by decide
  have hcontact : pointer_flag_to_contact_flags pointer.pointerFlags ≤ 0x3FFFFF := by omega
  have hcoordinate {x : Int} (hx : x.natAbs + 2 ≤ 0x3FFF) : x.natAbs ≤ 0x1FFFFF := by omega
  have hnear {x : Int} (hx : x.natAbs + 2 ≤ 0x3FFF) : (x - 2).natAbs ≤ 0x3FFF := by omega
  have hfar {x : Int} (hx : x.natAbs + 2 ≤ 0x3FFF) : (x + 2).natAbs ≤ 0x3FFF := by omega
  have hrect := readContactRect_stored (hnear hx) (hnear hy) (hfar hx) (hfar hy) rest
  unfold touchContact
  dsimp only
  rw [stored_cons_append, stored_cons_append, stored_cons_append, stored_cons_append,
    stored_cons_append]
  refine (reads_bind (readByte_BYTE hid _) _).trans ?_
  refine (reads_bind ((carries_2byte_unsigned hpresent).reads _) _).trans ?_
  refine (reads_bind ((carries_4byte_signed (hcoordinate hx)).reads _) _).trans ?_
  refine (reads_bind ((carries_4byte_signed (hcoordinate hy)).reads _) _).trans ?_
  refine (reads_bind ((carries_4byte_unsigned hcontact).reads _) _).trans ?_
  exact reads_bind (readIf_of_present (by decide) hrect) _

/-- No field is left out, and what is read of the PDU is what was sent. -/
def TouchRoundTrip (heap : Heap) (pointers : List POINTER_INFO) (offset : Nat) : Prop :=
  (∀ field ∈ eventFields pointers.length offset (pointers.flatMap touchContact), field.isSome) ∧
    ∃ pdu, rdpei_send_touch_event_pdu_new heap pointers offset = (CHANNEL_RC_OK, some pdu) ∧
      readEvent readTouchContact (pdu.drop RDPINPUT_HEADER_LENGTH) =
        some (⟨offset, [⟨offset * 1000, pointers.map (·.contact)⟩]⟩, [])

theorem heard_eq_contact_iff : pointer.heard = pointer.contact ↔
    heard pointer.ptPixelLocation.1 = pointer.ptPixelLocation.1 ∧
      heard pointer.ptPixelLocation.2 = pointer.ptPixelLocation.2 := by
  simp [POINTER_INFO.heard, POINTER_INFO.contact, POINTER_INFO.contactAt]

theorem eventFields_isSome {contacts : List (Option Bytes)} {count : Nat} :
    (∀ field ∈ eventFields count offset contacts, field.isSome) ↔
      (offset % 2 ^ 32 ≤ 0x3FFFFF ∧ count ≤ 0x7FFF ∧ offset * 1000 % 2 ^ 64 ≤ 0x1FFFFFFFFFFFFF) ∧
        ∀ field ∈ contacts, field.isSome := by
  have hone : (rdpei_write_2byte_unsigned 1).isSome := (carries_2byte_unsigned (by decide)).isSome
  simp only [eventFields, List.forall_mem_append, List.forall_mem_cons,
    write_4byte_unsigned_isSome, hone,
    write_2byte_unsigned_isSome, write_8byte_unsigned_isSome, true_and, List.not_mem_nil, false_implies,
    implies_true, and_true]

theorem touchContact_isSome (h : pointer.OnScreen) :
    ∀ field ∈ touchContact pointer, field.isSome := by
  obtain ⟨id, flags, x, y⟩ := pointer
  have hx : x.natAbs + 2 ≤ 0x3FFF := h.1
  have hy : y.natAbs + 2 ≤ 0x3FFF := h.2
  have hflags := contact_flags_lt flags
  have htwo {x : Int} (hx : x.natAbs ≤ 0x3FFF) := (carries_2byte_signed hx).isSome
  simp only [touchContact, List.forall_mem_cons]
  exact ⟨rfl, (carries_2byte_unsigned (by decide)).isSome, (carries_4byte_signed (by omega)).isSome,
    (carries_4byte_signed (by omega)).isSome, (carries_4byte_unsigned (by omega)).isSome,
    htwo (by omega), htwo (by omega), htwo (by omega), htwo (by omega), by simp⟩

/-- **What is read of a touch PDU.** -/
theorem touch_pdu_read {heap : Heap} (hnew : heap.stream_new = true)
    (hcount : pointers.length ≤ 0x7FFF)
    (hscreen : ∀ pointer ∈ pointers, pointer.OnScreen) (htime : offset % 2 ^ 32 ≤ 0x3FFFFF)
    (hoffset : offset * 1000 % 2 ^ 64 ≤ 0x1FFFFFFFFFFFFF) :
    ∃ pdu, rdpei_send_touch_event_pdu_new heap pointers offset = (CHANNEL_RC_OK, some pdu) ∧
      readEvent readTouchContact (pdu.drop RDPINPUT_HEADER_LENGTH) =
        some (⟨offset % 2 ^ 32, [⟨kept (offset * 1000 % 2 ^ 64), pointers.map (·.heard)⟩]⟩, []) :=
  ⟨_, sendEvent_eq hnew _ _ _ _, readEvent_stored _ _
    (fun _ hpointer => readTouchContact_stored (hscreen _ hpointer)) hcount htime hoffset⟩

/-- **When a touch PDU is read as it was meant.** -/
theorem touch_pdu_roundtrip_iff (heap : Heap) (hnew : heap.stream_new = true)
    (pointers : List POINTER_INFO) (hcount : 1 ≤ pointers.length ∧ pointers.length ≤ 10)
    (hscreen : ∀ pointer ∈ pointers, pointer.OnScreen) (offset : Nat) (hoffset : offset < 2 ^ 30) :
    TouchRoundTrip heap pointers offset ↔
      offset * 1000 < 2 ^ 29 ∧ ∀ pointer ∈ pointers,
        ¬ (-0x1F ≤ pointer.ptPixelLocation.1 ∧ pointer.ptPixelLocation.1 < 0) ∧
          ¬ (-0x1F ≤ pointer.ptPixelLocation.2 ∧ pointer.ptPixelLocation.2 < 0) := by
  have htime : offset % 2 ^ 32 = offset := Nat.mod_eq_of_lt (by omega)
  have hmicro : offset * 1000 % 2 ^ 64 = offset * 1000 := Nat.mod_eq_of_lt (by omega)
  have hheard (pointer : POINTER_INFO) := @heard_eq_contact_iff pointer
  simp only [heard_eq_iff] at hheard
  constructor
  · rintro ⟨hall, pdu, hpdu, hread⟩
    obtain ⟨⟨hwritten, -, hwritten8⟩, -⟩ := eventFields_isSome.mp hall
    obtain ⟨sent, hsent, hsentRead⟩ := touch_pdu_read hnew (by omega) hscreen hwritten hwritten8
    rw [hpdu, Prod.mk.injEq, Option.some.injEq] at hsent
    rw [← hsent.2, hread, hmicro, kept_of_lt (by omega)] at hsentRead
    simp only [Option.some.injEq, Prod.mk.injEq, EventPdu.mk.injEq, List.cons.injEq, Frame.mk.injEq,
      and_true] at hsentRead
    obtain ⟨-, hmod, hmap⟩ := hsentRead
    refine ⟨?_, fun pointer hpointer => (hheard pointer).mp ?_⟩
    · rw [hmod]
      exact Nat.mod_lt _ (by decide)
    · exact (List.map_inj_left.mp hmap pointer hpointer).symm
  · rintro ⟨hsmall, hclear⟩
    have hwritten : offset % 2 ^ 32 ≤ 0x3FFFFF := by omega
    have hwritten8 : offset * 1000 % 2 ^ 64 ≤ 0x1FFFFFFFFFFFFF := by omega
    obtain ⟨pdu, hpdu, hread⟩ := touch_pdu_read hnew (by omega) hscreen hwritten hwritten8
    have hmap : pointers.map (·.heard) = pointers.map (·.contact) :=
      List.map_congr_left fun pointer hpointer => (hheard pointer).mpr (hclear pointer hpointer)
    rw [htime, hmicro, kept_of_lt (by omega), Nat.mod_eq_of_lt hsmall, hmap] at hread
    refine ⟨eventFields_isSome.mpr ⟨⟨hwritten, by omega, hwritten8⟩, ?_⟩, pdu, hpdu, hread⟩
    intro field hfield
    obtain ⟨pointer, hpointer, hmem⟩ := List.mem_flatMap.mp hfield
    exact touchContact_isSome (hscreen pointer hpointer) field hmem

/-- A finger in the middle of a screen, a tenth of a second after the last frame. -/
theorem touch_pdu_roundtrip_iff_middle :
    TouchRoundTrip ⟨true, true⟩ [⟨11, POINTER_FLAG_UPDATE, (640, 360)⟩] 100 ↔
      100 * 1000 < 2 ^ 29 ∧ ∀ pointer ∈ [(⟨11, POINTER_FLAG_UPDATE, (640, 360)⟩ : POINTER_INFO)],
        ¬ (-0x1F ≤ pointer.ptPixelLocation.1 ∧ pointer.ptPixelLocation.1 < 0) ∧
          ¬ (-0x1F ≤ pointer.ptPixelLocation.2 ∧ pointer.ptPixelLocation.2 < 0) :=
  touch_pdu_roundtrip_iff ⟨true, true⟩ rfl _ (by decide)
    (by simp [POINTER_INFO.OnScreen]) 100 (by decide)

/-- A finger three pixels left of the screen is read three pixels right of its edge. -/
theorem touch_left_of_screen :
    ¬ TouchRoundTrip ⟨true, true⟩ [⟨11, POINTER_FLAG_UPDATE, (-3, 360)⟩] 100 := by
  rintro ⟨-, pdu, hpdu, hread⟩
  have hsent := hpdu.symm.trans (sendEvent_eq rfl _ _ _ _)
  rw [Prod.mk.injEq, Option.some.injEq] at hsent
  rw [hsent.2] at hread
  exact absurd hread (by decide +kernel)

end Touch

/-! ## Pen -/

section Pen

variable {pen : POINTER_PEN_INFO} {offset : Nat}

/-- A field that the mask of the pen has, or has not. -/
def announced {α : Type} (penMask flag : Nat) (x : α) : Option α :=
  if penMask &&& flag ≠ 0 then some x else none

/-- What is read. -/
def POINTER_PEN_INFO.heard (pen : POINTER_PEN_INFO) : PenContact where
  contactId := 0
  x := Rdpei.heard pen.pointerInfo.ptPixelLocation.1
  y := Rdpei.heard pen.pointerInfo.ptPixelLocation.2
  contactFlags := pointer_flag_to_contact_flags pen.pointerInfo.pointerFlags
  penFlags := some (pen_flag_to_rdp_pen_flag pen.penFlags)
  pressure := announced pen.penMask PEN_MASK_PRESSURE pen.pressure
  rotation := announced pen.penMask PEN_MASK_ROTATION pen.rotation
  tiltX := announced pen.penMask PEN_MASK_TILT_X (toUINT32 pen.tiltX)
  tiltY := announced pen.penMask PEN_MASK_TILT_Y (toUINT32 pen.tiltY)

/-- What the pen API promises, and a pixel that can be written. -/
structure POINTER_PEN_INFO.InRange (pen : POINTER_PEN_INFO) : Prop where
  penMask : pen.penMask < 16
  pressure : pen.pressure ≤ 1024
  rotation : pen.rotation ≤ 359
  tiltX : pen.tiltX.natAbs ≤ 90
  tiltY : pen.tiltY.natAbs ≤ 90
  x : pen.pointerInfo.ptPixelLocation.1.natAbs ≤ 0x1FFFFF
  y : pen.pointerInfo.ptPixelLocation.2.natAbs ≤ 0x1FFFFF

/-- The tilts that are announced are not negative. -/
def POINTER_PEN_INFO.TiltsUp (pen : POINTER_PEN_INFO) : Prop :=
  (pen.penMask &&& PEN_MASK_TILT_X ≠ 0 → 0 ≤ pen.tiltX) ∧
    (pen.penMask &&& PEN_MASK_TILT_Y ≠ 0 → 0 ≤ pen.tiltY)

/-- `fieldsPresent` has the pen flags, and what the mask has. -/
theorem fields_present {mask : Nat} (h : mask < 16) :
    pen_mask_to_fields_present mask ≤ 0x7FFF ∧
      pen_mask_to_fields_present mask &&& PEN_CONTACT_PENFLAGS_PRESENT ≠ 0 ∧
      (pen_mask_to_fields_present mask &&& PEN_CONTACT_PRESSURE_PRESENT ≠ 0 ↔
        mask &&& PEN_MASK_PRESSURE ≠ 0) ∧
      (pen_mask_to_fields_present mask &&& PEN_CONTACT_ROTATION_PRESENT ≠ 0 ↔
        mask &&& PEN_MASK_ROTATION ≠ 0) ∧
      (pen_mask_to_fields_present mask &&& PEN_CONTACT_TILTX_PRESENT ≠ 0 ↔
        mask &&& PEN_MASK_TILT_X ≠ 0) ∧
      (pen_mask_to_fields_present mask &&& PEN_CONTACT_TILTY_PRESENT ≠ 0 ↔
        mask &&& PEN_MASK_TILT_Y ≠ 0) := by
  decide +revert

/-- A field that `fieldsPresent` decides about is read when it has been written. -/
theorem readIf_ifPresent {α : Type} {read : Bytes → Option (α × Bytes)}
    {penMask fieldsPresent flag bit n : Nat} {x : α} {field : Option Bytes}
    (hbit : fieldsPresent &&& flag ≠ 0 ↔ penMask &&& bit ≠ 0)
    (h : penMask &&& bit ≠ 0 → Carries read n x field) (rest : Bytes) :
    readIf fieldsPresent flag read (stored (ifPresent fieldsPresent flag field) ++ rest) =
      some (announced penMask bit x, rest) := by
  unfold ifPresent announced
  by_cases hpresent : penMask &&& bit ≠ 0
  · rw [if_pos (hbit.mpr hpresent), if_pos hpresent, stored_cons_append, stored_nil_append]
    exact readIf_of_present (hbit.mpr hpresent) ((h hpresent).reads rest)
  · rw [readIf, if_neg (mt hbit.mp hpresent), if_neg (mt hbit.mp hpresent), if_neg hpresent,
      stored_nil_append]

theorem toUINT32_of_nonneg {value : Int} (h : 0 ≤ value) (hle : value.natAbs ≤ 90) :
    toUINT32 value = value.natAbs := by
  unfold toUINT32
  omega

/-- A tilt can be written as long as it is not negative. -/
theorem toUINT32_le_iff {value : Int} (h : value.natAbs ≤ 90) :
    toUINT32 value ≤ 0x7FFF ↔ 0 ≤ value := by
  unfold toUINT32
  omega

theorem readPenContact_stored (h : pen.InRange) (htilts : pen.TiltsUp) (rest : Bytes) :
    readPenContact (stored (penContact pen) ++ rest) = some (pen.heard, rest) := by
  obtain ⟨hfields, hpenFlags, hpressure, hrotation, htiltX, htiltY⟩ := fields_present h.penMask
  have hflags := contact_flags_lt pen.pointerInfo.pointerFlags
  have hcontact : pointer_flag_to_contact_flags pen.pointerInfo.pointerFlags ≤ 0x3FFFFF := by omega
  have hpen := pen_flags_lt pen.penFlags
  have hwritten : pen_flag_to_rdp_pen_flag pen.penFlags ≤ 0x3FFFFF := by omega
  have hid : (0 : Nat) < 256 := by decide
  have hreadFlags (rest : Bytes) : readIf (pen_mask_to_fields_present pen.penMask)
      PEN_CONTACT_PENFLAGS_PRESENT rdpei_read_4byte_unsigned
      (stored (ifPresent (pen_mask_to_fields_present pen.penMask) PEN_CONTACT_PENFLAGS_PRESENT
        (rdpei_write_4byte_unsigned (pen_flag_to_rdp_pen_flag pen.penFlags))) ++ rest) =
        some (some (pen_flag_to_rdp_pen_flag pen.penFlags), rest) := by
    rw [ifPresent, if_pos hpenFlags, stored_cons_append, stored_nil_append]
    exact readIf_of_present hpenFlags ((carries_4byte_unsigned hwritten).reads rest)
  have hreadPressure := readIf_ifPresent hpressure fun _ =>
    carries_4byte_unsigned (Nat.le_trans h.pressure (by decide))
  have hreadRotation := readIf_ifPresent hrotation fun _ =>
    carries_2byte_unsigned (Nat.le_trans h.rotation (by decide))
  have hreadTiltX := readIf_ifPresent htiltX fun hannounced =>
    carries_2byte_unsigned ((toUINT32_le_iff h.tiltX).mpr (htilts.1 hannounced))
  have hreadTiltY := readIf_ifPresent htiltY fun hannounced =>
    carries_2byte_unsigned ((toUINT32_le_iff h.tiltY).mpr (htilts.2 hannounced))
  unfold penContact
  simp only [stored_append, List.append_assoc, stored_cons_append, stored_nil_append]
  unfold readPenContact
  refine (reads_bind (readByte_BYTE hid _) _).trans ?_
  refine (reads_bind ((carries_2byte_unsigned hfields).reads _) _).trans ?_
  refine (reads_bind ((carries_4byte_signed h.x).reads _) _).trans ?_
  refine (reads_bind ((carries_4byte_signed h.y).reads _) _).trans ?_
  refine (reads_bind ((carries_4byte_unsigned hcontact).reads _) _).trans ?_
  refine (reads_bind (hreadFlags _) _).trans ?_
  refine (reads_bind (hreadPressure _) _).trans ?_
  refine (reads_bind (hreadRotation _) _).trans ?_
  refine (reads_bind (hreadTiltX _) _).trans ?_
  exact reads_bind (hreadTiltY rest) _

theorem ifPresent_isSome {penMask fieldsPresent flag bit : Nat} {field : Option Bytes}
    (hbit : fieldsPresent &&& flag ≠ 0 ↔ penMask &&& bit ≠ 0) :
    (∀ f ∈ ifPresent fieldsPresent flag field, f.isSome) ↔
    (penMask &&& bit ≠ 0 → field.isSome) := by
  rw [← hbit]
  unfold ifPresent
  split_ifs with hpresent
  · simp [hpresent]
  · simp [hpresent]

/-- **The fields of a pen are all written as long as no announced tilt is negative.** -/
theorem penContact_isSome (h : pen.InRange) :
    (∀ field ∈ penContact pen, field.isSome) ↔ pen.TiltsUp := by
  obtain ⟨hfields, hpenFlags, hpressure, hrotation, htiltX, htiltY⟩ := fields_present h.penMask
  have hcontact := contact_flags_lt pen.pointerInfo.pointerFlags
  have hpen := pen_flags_lt pen.penFlags
  have hpressureLe : pen.pressure ≤ 0x3FFFFF := Nat.le_trans h.pressure (by decide)
  have hrotationLe : pen.rotation ≤ 0x7FFF := Nat.le_trans h.rotation (by decide)
  unfold penContact POINTER_PEN_INFO.TiltsUp
  simp only [List.forall_mem_append, List.forall_mem_cons, ifPresent_isSome hpressure,
    ifPresent_isSome hrotation, ifPresent_isSome htiltX, ifPresent_isSome htiltY,
    write_2byte_unsigned_isSome, write_4byte_unsigned_isSome, toUINT32_le_iff h.tiltX,
    toUINT32_le_iff h.tiltY, (carries_4byte_signed h.x).isSome, (carries_4byte_signed h.y).isSome]
  rw [ifPresent, if_pos hpenFlags]
  have hcontactLe :
    pointer_flag_to_contact_flags pen.pointerInfo.pointerFlags ≤ 0x3FFFFF := by omega
  have hpenLe : pen_flag_to_rdp_pen_flag pen.penFlags ≤ 0x3FFFFF := by omega
  simp [hfields, hcontactLe, hpenLe, hpressureLe, hrotationLe, write_4byte_unsigned_isSome]

/-- What a reader has of pressure, rotation and tilts. -/
def POINTER_PEN_INFO.Recovered (pen : POINTER_PEN_INFO) (contact : PenContact) : Prop :=
  contact.pressure = announced pen.penMask PEN_MASK_PRESSURE pen.pressure ∧
    contact.rotation = announced pen.penMask PEN_MASK_ROTATION pen.rotation ∧
    contact.tiltX.map Nat.cast = announced pen.penMask PEN_MASK_TILT_X pen.tiltX ∧
    contact.tiltY.map Nat.cast = announced pen.penMask PEN_MASK_TILT_Y pen.tiltY

/-- No field is left out, and a reader takes all bytes of the PDU and has the pen. -/
def PenRoundTrip (heap : Heap) (pen : POINTER_PEN_INFO) (offset : Nat) : Prop :=
  (∀ field ∈ eventFields 1 offset (penContact pen), field.isSome) ∧
    ∃ pdu encodeTime frameOffset contact,
      rdpei_send_pen_event_pdu_new heap pen offset = (CHANNEL_RC_OK, some pdu) ∧
      readEvent readPenContact (pdu.drop RDPINPUT_HEADER_LENGTH) =
        some (⟨encodeTime, [⟨frameOffset, [contact]⟩]⟩, []) ∧ pen.Recovered contact

theorem announced_toUINT32 {penMask flag : Nat} {tilt : Int} (htilt : tilt.natAbs ≤ 90)
    (h : penMask &&& flag ≠ 0 → 0 ≤ tilt) :
    (announced penMask flag (toUINT32 tilt)).map Nat.cast = announced penMask flag tilt := by
  unfold announced
  split_ifs with hannounced
  · have hnonneg := h hannounced
    rw [toUINT32_of_nonneg hnonneg htilt, Option.map_some, Option.some.injEq]
    omega
  · rfl

/-- **When a pen PDU has all its fields.** -/
theorem pen_pdu_roundtrip_iff (heap : Heap) (hnew : heap.stream_new = true) (pen : POINTER_PEN_INFO)
    (hrange : pen.InRange) (offset : Nat) :
    PenRoundTrip heap pen offset ↔
      pen.TiltsUp ∧ offset % 2 ^ 32 ≤ 0x3FFFFF ∧ offset * 1000 % 2 ^ 64 ≤ 0x1FFFFFFFFFFFFF := by
  constructor
  · rintro ⟨hall, -⟩
    obtain ⟨⟨htime, -, hmicro⟩, hcontact⟩ := eventFields_isSome.mp hall
    exact ⟨(penContact_isSome hrange).mp hcontact, htime, hmicro⟩
  · rintro ⟨htilts, htime, hmicro⟩
    have hcontact := (penContact_isSome hrange).mpr htilts
    have hread := readEvent_stored POINTER_PEN_INFO.heard [pen]
      (fun item hitem => List.mem_singleton.mp hitem ▸ readPenContact_stored hrange htilts)
      (show 1 ≤ 0x7FFF by decide) htime hmicro
    refine ⟨eventFields_isSome.mpr ⟨⟨htime, by decide, hmicro⟩, hcontact⟩, _, _, _, pen.heard,
      sendEvent_eq hnew _ _ _ _, hread, rfl, rfl, ?_, ?_⟩
    · exact announced_toUINT32 hrange.tiltX htilts.1
    · exact announced_toUINT32 hrange.tiltY htilts.2

/-- A pen that is held upright and pressed, with all its fields. -/
theorem pen_pdu_roundtrip_iff_upright :
    PenRoundTrip ⟨true, true⟩ ⟨⟨1, POINTER_FLAG_UPDATE, (640, 360)⟩, 0, 15, 512, 90, 0, 30⟩ 100 ↔
      (⟨⟨1, POINTER_FLAG_UPDATE, (640, 360)⟩, 0, 15, 512, 90, 0, 30⟩ : POINTER_PEN_INFO).TiltsUp ∧
        100 % 2 ^ 32 ≤ 0x3FFFFF ∧ 100 * 1000 % 2 ^ 64 ≤ 0x1FFFFFFFFFFFFF :=
  pen_pdu_roundtrip_iff ⟨true, true⟩ rfl _ ⟨by decide, by decide, by decide, by decide, by decide,
    by decide, by decide⟩ 100

/-- A pen that leans to the left announces a tilt that is not in the PDU. -/
theorem pen_leaning_left :
    ¬ PenRoundTrip ⟨true, true⟩
      ⟨⟨1, POINTER_FLAG_UPDATE, (640, 360)⟩, 0, PEN_MASK_PRESSURE ||| PEN_MASK_TILT_X, 512, 0, -5, 0⟩ 100 := by
  rintro ⟨-, pdu, encodeTime, frameOffset, contact, hpdu, hread, -⟩
  have hsent := hpdu.symm.trans (sendEvent_eq rfl _ _ _ _)
  rw [Prod.mk.injEq, Option.some.injEq] at hsent
  have hnone : readEvent readPenContact (pdu.drop RDPINPUT_HEADER_LENGTH) = none := by
    rw [hsent.2]
    decide +kernel
  rw [hnone] at hread
  exact absurd hread (by simp)

end Pen

end TiraRdp.Rdpei
