import TiraRdp.Rdp.Rdpei

/-!
# `rdpei_main`: the time offset of a frame

`rdpei_send_pen_frame` and `rdpei_send_touch_frame`
(`Rdp/src/channels/rdpei/client/rdpei_main.c:818-880`). A frame carries the time since the frame
before it, and zero when it is the first one that is transmitted. Both functions take
`currentFrameTime` before they send and `previousFrameTime` when the frame has been sent, and a
frame is the first one for them while neither has been taken.

The plugin is as the functions use it. A call comes with the tick count that it is made at, what the
allocations answer, and what the channel answers to the bytes of its event.

Results:
* `offsets_right_of_sent`: behind a frame that was sent, whatever fails, every offset is the time
  since the last frame that was sent.
* `frame_offsets_right_iff`: all offsets of a run are right exactly when its first call sends its
  frame, or there is no other call.
-/

namespace TiraRdp.Rdpei

open Lib

/-! ## The calls -/

structure RDPINPUT_TOUCH_FRAME where
  contactCount : Nat
  frameOffset : UInt64
  deriving DecidableEq, Repr

structure RDPEI_PLUGIN where
  currentFrameTime : UInt64
  previousFrameTime : UInt64
  frame : RDPINPUT_TOUCH_FRAME
  deriving DecidableEq, Repr

/-- As `rdpei_DVCPluginEntry` leaves it. -/
def RDPEI_PLUGIN.new : RDPEI_PLUGIN := ⟨0, 0, ⟨0, 0⟩⟩

/-- What a `rdpei_send_*_event_pdu_new` returns: `written` is what the channel answers, when it gets
something to write. -/
def sendStatus (written : Nat) : Nat × Option Bytes → Nat
  | (status, none) => status
  | (_, some _) => written

/-- Both functions, up to what they send. -/
def sendFrame (send : UInt64 → Nat) (currentTime : UInt64) (rdpei : RDPEI_PLUGIN) :
    Nat × RDPEI_PLUGIN :=
  let rdpei :=
    if rdpei.previousFrameTime = 0 ∧ rdpei.currentFrameTime = 0 then
      { rdpei with currentFrameTime := currentTime, frame := { rdpei.frame with frameOffset := 0 } }
    else
      { rdpei with
        currentFrameTime := currentTime
        frame := { rdpei.frame with frameOffset := currentTime - rdpei.previousFrameTime } }
  let error := send rdpei.frame.frameOffset
  if error ≠ CHANNEL_RC_OK then (error, rdpei)
  else
    (error, { rdpei with
      previousFrameTime := rdpei.currentFrameTime
      frame := { rdpei.frame with contactCount := 0 } })

def rdpei_send_pen_frame (heap : Heap) (written : Nat) (pointer : POINTER_PEN_INFO) :
    UInt64 → RDPEI_PLUGIN → Nat × RDPEI_PLUGIN :=
  sendFrame fun offset =>
    sendStatus written (rdpei_send_pen_event_pdu_new heap pointer offset.toNat)

def rdpei_send_touch_frame (heap : Heap) (written : Nat) (pointers : List POINTER_INFO) :
    UInt64 → RDPEI_PLUGIN → Nat × RDPEI_PLUGIN :=
  sendFrame fun offset =>
    sendStatus written (rdpei_send_touch_event_pdu_new heap pointers offset.toNat)

/-! ## Runs of calls -/

inductive PointerEvent
  | pen (pointer : POINTER_PEN_INFO)
  | touch (pointers : List POINTER_INFO)
  deriving Repr, DecidableEq

structure FrameCall where
  event : PointerEvent
  /-- What `GetTickCount64` answers. -/
  currentTime : UInt64
  heap : Heap
  /-- What the channel answers. -/
  written : Nat

def FrameCall.run (call : FrameCall) (rdpei : RDPEI_PLUGIN) : Nat × RDPEI_PLUGIN :=
  match call.event with
  | .pen pointer => rdpei_send_pen_frame call.heap call.written pointer call.currentTime rdpei
  | .touch pointers => rdpei_send_touch_frame call.heap call.written pointers call.currentTime rdpei

/-- What a call has put into its frame, and what it has returned. -/
structure FrameResult where
  time : UInt64
  frameOffset : UInt64
  error : Nat
  deriving DecidableEq, Repr

def frames (rdpei : RDPEI_PLUGIN) : List FrameCall → List FrameResult
  | [] => []
  | call :: calls =>
    let (error, rdpei) := call.run rdpei
    ⟨call.currentTime, rdpei.frame.frameOffset, error⟩ :: frames rdpei calls

/-- The time since the last frame that was sent, if there is one. -/
def timeSince (time : UInt64) : Option UInt64 → Nat
  | none => 0
  | some last => time.toNat - last.toNat

/-- Every offset is the time since the last frame that was sent before; `last` is when that was. -/
def OffsetsRight (last : Option UInt64) : List FrameResult → Prop
  | [] => True
  | frame :: frames =>
    frame.frameOffset.toNat = timeSince frame.time last ∧
      OffsetsRight (if frame.error = CHANNEL_RC_OK then some frame.time else last) frames

/-- There is a stream to write to, and the channel takes what is written. -/
def FrameCall.Sends (call : FrameCall) : Prop :=
  call.heap.stream_new = true ∧ call.written = CHANNEL_RC_OK

instance (call : FrameCall) : Decidable call.Sends := inferInstanceAs (Decidable (_ ∧ _))

/-! ## One call -/

variable {call : FrameCall} {rdpei : RDPEI_PLUGIN}

/-- What an event comes to does not depend on its offset. -/
theorem sendStatus_sendEvent (heap : Heap) (written eventId count offset : Nat)
    (contacts : List (Option Bytes)) :
    sendStatus written (sendEvent heap eventId count offset fun capacity position =>
        writeFrame heap capacity position count offset contacts) =
      if heap.stream_new = true then written else CHANNEL_RC_NO_MEMORY := by
  by_cases hnew : heap.stream_new = true
  · rw [sendEvent_eq hnew, if_pos hnew]
    rfl
  · rw [sendEvent, if_pos (Bool.eq_false_of_not_eq_true hnew), if_neg hnew]
    rfl

def FrameCall.status (call : FrameCall) : Nat :=
  if call.heap.stream_new = true then call.written else CHANNEL_RC_NO_MEMORY

theorem FrameCall.status_eq_ok (call : FrameCall) : call.status = CHANNEL_RC_OK ↔ call.Sends := by
  unfold status Sends
  split_ifs with hnew
  · exact ⟨fun h => ⟨hnew, h⟩, And.right⟩
  · exact ⟨fun h => absurd h (by decide), fun h => absurd h.1 hnew⟩

theorem FrameCall.run_eq (call : FrameCall) (rdpei : RDPEI_PLUGIN) :
    call.run rdpei = sendFrame (fun _ => call.status) call.currentTime rdpei := by
  obtain ⟨event, currentTime, heap, written⟩ := call
  cases event with
  | pen pointer =>
    have hsend : (fun offset : UInt64 =>
        sendStatus written (rdpei_send_pen_event_pdu_new heap pointer offset.toNat)) =
          fun _ => if heap.stream_new = true then written else CHANNEL_RC_NO_MEMORY := by
      funext offset
      exact sendStatus_sendEvent heap written EVENTID_PEN 1 offset.toNat _
    exact congrArg (sendFrame · currentTime rdpei) hsend
  | touch pointers =>
    have hsend : (fun offset : UInt64 =>
        sendStatus written (rdpei_send_touch_event_pdu_new heap pointers offset.toNat)) =
          fun _ => if heap.stream_new = true then written else CHANNEL_RC_NO_MEMORY := by
      funext offset
      exact sendStatus_sendEvent heap written EVENTID_TOUCH pointers.length offset.toNat _
    exact congrArg (sendFrame · currentTime rdpei) hsend

/-- The offset of the frame of a call. -/
def FrameCall.offset (call : FrameCall) (rdpei : RDPEI_PLUGIN) : UInt64 :=
  if rdpei.previousFrameTime = 0 ∧ rdpei.currentFrameTime = 0 then 0
  else call.currentTime - rdpei.previousFrameTime

/-- **What a call does to the times**: the one is always taken, the other when the frame was
sent. -/
theorem FrameCall.run_spec (call : FrameCall) (rdpei : RDPEI_PLUGIN) :
    (call.run rdpei).1 = call.status ∧ (call.run rdpei).2.frame.frameOffset = call.offset rdpei ∧
      (call.run rdpei).2.currentFrameTime = call.currentTime ∧
        (call.run rdpei).2.previousFrameTime =
          if call.status = CHANNEL_RC_OK then call.currentTime else rdpei.previousFrameTime := by
  rw [run_eq, sendFrame, offset]
  by_cases hok : call.status = CHANNEL_RC_OK
  · rw [if_neg (not_not_intro hok), if_pos hok]
    split_ifs
    · exact ⟨rfl, rfl, rfl, rfl⟩
    · exact ⟨rfl, rfl, rfl, rfl⟩
  · rw [if_pos hok, if_neg hok]
    split_ifs
    · exact ⟨rfl, rfl, rfl, rfl⟩
    · exact ⟨rfl, rfl, rfl, rfl⟩

/-- The first call of a run, and the others. -/
theorem offsetsRight_cons {last : Option UInt64} {calls : List FrameCall} :
    OffsetsRight last (frames rdpei (call :: calls)) ↔
      (call.offset rdpei).toNat = timeSince call.currentTime last ∧
        OffsetsRight (if call.Sends then some call.currentTime else last)
          (frames (call.run rdpei).2 calls) := by
  obtain ⟨herror, hoffset, -, -⟩ := call.run_spec rdpei
  simp only [frames, OffsetsRight, herror, hoffset, call.status_eq_ok]

/-! ## Runs -/

/-- **Behind a frame that was sent** every offset is the time since the last one that was, whichever
sends fail. -/
theorem offsets_right_of_sent {last : UInt64} {calls : List FrameCall}
    (hsent : rdpei.previousFrameTime = last) (hlast : last ≠ 0)
    (hticks : (last :: calls.map FrameCall.currentTime).Pairwise (· ≤ ·)) :
    OffsetsRight (some last) (frames rdpei calls) := by
  induction calls generalizing rdpei last with
  | nil => trivial
  | cons call calls ih =>
    obtain ⟨-, -, -, hprevious⟩ := call.run_spec rdpei
    obtain ⟨hle, hrest⟩ := List.pairwise_cons.mp hticks
    have hcall : last ≤ call.currentTime := hle _ List.mem_cons_self
    rw [offsetsRight_cons]
    constructor
    · have hnot : ¬ (rdpei.previousFrameTime = 0 ∧ rdpei.currentFrameTime = 0) := by
        rw [hsent]
        exact fun h => hlast h.1
      rw [FrameCall.offset, if_neg hnot, hsent]
      exact UInt64.toNat_sub_of_le _ _ hcall
    · by_cases hsends : call.Sends
      · have hpos : call.currentTime ≠ 0 := by
          rintro hzero
          rw [hzero] at hcall
          exact hlast (UInt64.le_zero_iff.mp hcall)
        rw [if_pos hsends]
        rw [if_pos (call.status_eq_ok.mpr hsends)] at hprevious
        exact ih hprevious hpos hrest
      · rw [if_neg hsends]
        rw [if_neg (mt call.status_eq_ok.mp hsends), hsent] at hprevious
        exact ih hprevious hlast
          (hticks.sublist (List.Sublist.cons_cons last (List.sublist_cons_self _ _)))

/-- Once a first frame has failed, the offset of the next one is the tick count itself. -/
theorem offset_of_failed_first (hprevious : rdpei.previousFrameTime = 0)
    (hcurrent : rdpei.currentFrameTime ≠ 0) : call.offset rdpei = call.currentTime := by
  have hnot : ¬ (rdpei.previousFrameTime = 0 ∧ rdpei.currentFrameTime = 0) := fun h => hcurrent h.2
  rw [FrameCall.offset, if_neg hnot, hprevious, UInt64.sub_zero]

/-- **All offsets of a run are right exactly when its first call sends its frame**, or is alone. -/
theorem frame_offsets_right_iff (calls : List FrameCall)
    (hticks : (calls.map FrameCall.currentTime).Pairwise (· ≤ ·))
    (hzero : ∀ call ∈ calls, call.currentTime ≠ 0) :
    OffsetsRight none (frames RDPEI_PLUGIN.new calls) ↔
      calls.length ≤ 1 ∨ ∀ call ∈ calls.head?, call.Sends := by
  cases calls with
  | nil => exact ⟨fun _ => .inl (by decide), fun _ => trivial⟩
  | cons call calls =>
    obtain ⟨-, -, hcurrent, hprevious⟩ := call.run_spec RDPEI_PLUGIN.new
    have hfirst : call.currentTime ≠ 0 := hzero call List.mem_cons_self
    have hoffset : (call.offset RDPEI_PLUGIN.new).toNat = timeSince call.currentTime none := rfl
    rw [offsetsRight_cons, and_iff_right hoffset, List.head?_cons]
    by_cases hsends : call.Sends
    · rw [if_pos (call.status_eq_ok.mpr hsends)] at hprevious
      have hright := offsets_right_of_sent hprevious hfirst hticks
      rw [if_pos hsends]
      exact ⟨fun _ => .inr fun _ h => Option.some.inj h ▸ hsends, fun _ => hright⟩
    · rw [if_neg (mt call.status_eq_ok.mp hsends)] at hprevious
      rw [if_neg hsends]
      cases calls with
      | nil => exact ⟨fun _ => .inl (Nat.le_refl 1), fun _ => trivial⟩
      | cons next calls =>
        have hnext : next.currentTime ≠ 0 := hzero next (List.mem_cons_of_mem _ List.mem_cons_self)
        constructor
        · intro hright
          have hwrong := (offsetsRight_cons.mp hright).1
          rw [offset_of_failed_first hprevious (by rwa [hcurrent])] at hwrong
          exact absurd (UInt64.toNat_inj.mp hwrong) hnext
        · rintro (hlength | hhead)
          · exact absurd hlength (by simp)
          · exact absurd (hhead call rfl) hsends

/-! ## A first frame that fails -/

def aPen : POINTER_PEN_INFO := ⟨⟨1, 6, 100, 100⟩, 0, 0, 0, 0, 0, 0⟩

def aTouch : List POINTER_INFO := [⟨1, 6, 100, 100⟩]

def working : Heap := ⟨true, true⟩

/-- Pen, touch, touch, pen: the second and the fourth do not get through. -/
def sentFirst : List FrameCall :=
  [⟨.pen aPen, 1000, working, CHANNEL_RC_OK⟩, ⟨.touch aTouch, 1016, working, CHANNEL_RC_NO_MEMORY⟩,
    ⟨.touch aTouch, 1032, working, CHANNEL_RC_OK⟩, ⟨.pen aPen, 1032, ⟨false, false⟩, CHANNEL_RC_OK⟩]

theorem sentFirst_offsets_right : OffsetsRight none (frames RDPEI_PLUGIN.new sentFirst) :=
  (frame_offsets_right_iff sentFirst (by decide) (by decide)).mpr (.inr (by decide))

/-- The channel refuses the first frame and takes the second, which is then the first that is
transmitted, with the tick count as its offset. -/
def failedFirst : List FrameCall :=
  [⟨.touch aTouch, 1000, working, CHANNEL_RC_NO_MEMORY⟩,
    ⟨.touch aTouch, 1016, working, CHANNEL_RC_OK⟩]

theorem failedFirst_offset :
    (failedFirst.map FrameCall.currentTime).Pairwise (· ≤ ·) ∧
      (∀ call ∈ failedFirst, call.currentTime ≠ 0) ∧
      frames RDPEI_PLUGIN.new failedFirst =
        [⟨1000, 0, CHANNEL_RC_NO_MEMORY⟩, ⟨1016, 1016, CHANNEL_RC_OK⟩] ∧
      ¬ OffsetsRight none (frames RDPEI_PLUGIN.new failedFirst) := by
  refine ⟨by decide, by decide, by decide, ?_⟩
  rintro ⟨-, hsecond, -⟩
  exact absurd hsecond (by decide)

end TiraRdp.Rdpei
