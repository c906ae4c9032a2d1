import TiraRdp.Projector.TcpChannel
import TiraRdp.Projector.TouchAndPen

/-!
# The contacts of a touch

The frames of a touch from the system of the projector to the server: `TouchAndPen::Send` through
the `TcpChannel`, `TouchAndPenMsgReader` at the other end, and `rdpei_write_touch_frame_new`
(`Rdp/src/channels/rdpei/client/rdpei_main.c:343-391`) on what its event passes on
(`redirector-client/Redirector.cpp:157-161`).

The calls of `TcpChannel::Send` are calls that return; a frame whose call throws has not been sent.
What arrives is any beginning of the stream, in pieces of any size.

Results:
* `contactIds_contacts`: a contact has the last digit of the number of its pointer.
* `contacts_right_iff`: the contacts of the frames handed over tell the fingers apart exactly when
  in each frame no two pointers have numbers with the same last digit.
-/

namespace TiraRdp

open Lib Lib.Lts Rdpei RecordLoop

namespace TouchContacts

/-! ## The contact ids of a frame -/

/-- What an encoding of a frame meets. -/
structure FrameEnv where
  heap : Heap
  capacity : Nat
  position : Nat
  offset : Nat

/-- The contact ids among the fields of the contacts: the first of each nine. -/
def contactIds : List (Option Bytes) → List Nat
  | contactId :: _fieldsPresent :: _x :: _y :: _contactFlags :: _left :: _top :: _right ::
      _bottom :: contacts => ofLe (contactId.getD []) :: contactIds contacts
  | _ => []

/-- These are the contact ids that are written for a frame; its contacts stand behind two fields. -/
def Written (frame : List POINTER_INFO) (ids : List Nat) : Prop :=
  ∃ (env : FrameEnv) (fields : List (Option Bytes)),
    rdpei_write_touch_frame_new env.heap env.capacity env.position frame env.offset = some fields ∧
      contactIds (fields.drop 2) = ids

/-- Every pointer of a frame gets a contact of its own, whose id is a byte, and gets the same in
each frame it is in. -/
structure ContactsRight (frames : List (List POINTER_INFO)) : Prop where
  every : ∀ frame ∈ frames, ∀ ids, Written frame ids → ids.length = frame.length
  distinct : ∀ frame ∈ frames, ∀ ids, Written frame ids → ids.Nodup
  byte : ∀ frame ∈ frames, ∀ ids, Written frame ids → ∀ contactId ∈ ids, contactId < 256
  same : ∀ frame ∈ frames, ∀ ids, Written frame ids →
    ∀ frame' ∈ frames, ∀ ids', Written frame' ids' →
    ∀ p ∈ frame.zip ids, ∀ q ∈ frame'.zip ids', p.1.pointerId = q.1.pointerId → p.2 = q.2

/-- No two pointers of a frame have numbers with the same last digit. -/
def LastDigitsDiffer (frame : List POINTER_INFO) : Prop :=
  frame.Pairwise fun p q => p.pointerId % 10 ≠ q.pointerId % 10

/-- **A contact has the last digit of its pointer's number.** -/
theorem contactIds_contacts (frame : List POINTER_INFO) :
    contactIds (frame.flatMap touchContact) = frame.map (·.pointerId % 10) := by
  induction frame with
  | nil => rfl
  | cons p frame ih =>
    have hdigit : p.pointerId % 10 < 10 := Nat.mod_lt _ (by decide)
    have hbyte : ofLe [BYTE (p.pointerId % 10)] = p.pointerId % 10 := by
      simp only [ofLe, BYTE, List.foldr_cons, List.foldr_nil, UInt8.toNat_ofNat']
      omega
    rw [List.flatMap_cons, List.map_cons, ← ih, ← hbyte]
    rfl

theorem written_iff {frame : List POINTER_INFO} {ids : List Nat} :
    Written frame ids ↔ ids = frame.map (·.pointerId % 10) := by
  constructor
  · rintro ⟨env, fields, hfields, rfl⟩
    rw [rdpei_write_touch_frame_new, writeFrame] at hfields
    split_ifs at hfields with hgrow
    rw [← Option.some.inj hfields]
    exact contactIds_contacts frame
  · rintro rfl
    refine ⟨⟨⟨true, true⟩, 0, 0, 0⟩, _, if_neg ?_, contactIds_contacts frame⟩
    rintro ⟨-, hrealloc⟩
    exact Bool.noConfusion hrealloc

theorem nodup_iff (frame : List POINTER_INFO) :
    (frame.map (·.pointerId % 10)).Nodup ↔ LastDigitsDiffer frame :=
  List.pairwise_map

/-- The id that goes with a pointer. -/
theorem of_mem_zip {frame : List POINTER_INFO} {p : POINTER_INFO × Nat}
    (h : p ∈ frame.zip (frame.map (·.pointerId % 10))) : p.2 = p.1.pointerId % 10 := by
  have hzip : frame.zip (frame.map (·.pointerId % 10)) =
      frame.map fun pointer => (pointer, pointer.pointerId % 10) := by
    conv_lhs => rw [← List.map_id frame, List.map_map]
    exact List.zip_map'
  rw [hzip] at h
  obtain ⟨pointer, -, rfl⟩ := List.mem_map.mp h
  rfl

theorem contactsRight_iff (frames : List (List POINTER_INFO)) :
    ContactsRight frames ↔ ∀ frame ∈ frames, LastDigitsDiffer frame := by
  constructor
  · intro h frame hframe
    exact (nodup_iff frame).mp (h.distinct frame hframe _ (written_iff.mpr rfl))
  · intro h
    refine ⟨?_, ?_, ?_, ?_⟩
    · rintro frame - ids hids
      rw [written_iff.mp hids, List.length_map]
    · intro frame hframe ids hids
      rw [written_iff.mp hids]
      exact (nodup_iff frame).mpr (h frame hframe)
    · rintro frame - ids hids contactId hmem
      rw [written_iff.mp hids] at hmem
      obtain ⟨p, -, rfl⟩ := List.mem_map.mp hmem
      exact Nat.lt_trans (Nat.mod_lt _ (by decide)) (by decide)
    · rintro frame - ids hids frame' - ids' hids' p hp q hq heq
      rw [written_iff.mp hids] at hp
      rw [written_iff.mp hids'] at hq
      rw [of_mem_zip hp, of_mem_zip hq, heq]

/-! ## From the projector to the server -/

/-- The touch frames handed over. -/
def touched (s : State) : List (List POINTER_INFO) := s.handedOver.filterMap EventCall.contacts

/-- The touch frames among the first frames sent. -/
def delivered (captured : List (Captured × Mem UInt8)) (count : Nat) : List (List POINTER_INFO) :=
  ((TouchAndPen.new.sends captured).take count).filterMap fun sent => sent.1.contacts

/-- The calls that send what is captured. -/
def calls (captured : List (Captured × Mem UInt8)) : List TcpChannel.Call :=
  (TouchAndPen.new.sends captured).map fun sent => .returning sent.2

variable {captured : List (Captured × Mem UInt8)}

/-- What is sent are whole records. -/
theorem sent_length (captured : List (Captured × Mem UInt8)) :
    ∀ r ∈ (TouchAndPen.new.sends captured).map Prod.snd,
      r.length = TouchAndPen.sizeofPOINTER_DATA := by
  intro r hr
  obtain ⟨sent, hsent, rfl⟩ := List.mem_map.mp hr
  exact (TouchAndPen.new.sends_spec captured sent hsent).1

/-- The records of the frames go into the connection one behind the other. -/
theorem run_calls (captured : List (Captured × Mem UInt8)) (fresh : Nat → Mem UInt8) :
    ∃ c, run TcpChannel.step (.new fresh) (calls captured) = some c ∧
      c.stream = ((TouchAndPen.new.sends captured).map Prod.snd).flatten := by
  have hne : ∀ r ∈ (TouchAndPen.new.sends captured).map Prod.snd, r ≠ [] := by
    intro r hr
    refine List.ne_nil_of_length_pos ?_
    rw [sent_length captured r hr, TouchAndPen.sizeofPOINTER_DATA]
    decide
  obtain ⟨c, hrun, hstream⟩ := TcpChannel.run_returning hne (c := .new fresh)
    ⟨rfl, Nat.zero_le _⟩ rfl
  rw [List.map_map] at hrun
  exact ⟨c, hrun, hstream⟩

/-- **What has been handed over** are the frames whose records have been received. -/
theorem touched_eq {s : State}
    (h : Reads (TouchAndPenMsgReader.Workloop true true)
      ((TouchAndPen.new.sends captured).map Prod.snd).flatten s) :
    touched s = delivered captured (s.received.length / TouchAndPen.sizeofPOINTER_DATA) := by
  obtain ⟨records, hpieces, hhanded⟩ := h.records
  have htake := hpieces.eq_take (TouchAndPenMsgReader.Workloop true true).size_pos
    (sent_length captured) ⟨_, h.conserved⟩
  rw [touched, hhanded, htake, List.filterMap_filterMap, ← List.map_take, List.filterMap_map,
    delivered]
  refine List.filterMap_congr ?_
  intro sent hsent
  exact (TouchAndPen.new.sends_spec captured sent (List.mem_of_mem_take hsent)).2

/-- **When the contacts tell the fingers apart**: whatever is captured and however it arrives, in
every state of the run the frames handed over are those that were sent, and their contacts are right
exactly when in each of these the numbers of the pointers differ in their last digits. -/
theorem contacts_right_iff (captured : List (Captured × Mem UInt8)) (fresh : Nat → Mem UInt8)
    (fresh' : Mem UInt8) (as : List RecordLoop.Action) :
    ∃ c, run TcpChannel.step (.new fresh) (calls captured) = some c ∧
      Along (TouchAndPenMsgReader.Workloop true true).step (fun s =>
        ∃ frames, frames = delivered captured (s.received.length / TouchAndPen.sizeofPOINTER_DATA) ∧
          touched s = frames ∧ (ContactsRight frames ↔ ∀ frame ∈ frames, LastDigitsDiffer frame))
        (initial fresh' c.stream) as := by
  obtain ⟨c, hrun, hstream⟩ := run_calls captured fresh
  refine ⟨c, hrun, ?_⟩
  rw [hstream]
  exact along_of_invariant (p := fun _ => True)
    (fun s h => ⟨_, rfl, touched_eq h, contactsRight_iff _⟩)
    (fun _ _ _ h _ hs => h.step hs) (Reads.initial _ fresh' _) (fun _ _ => trivial)

/-! ## Two fingers -/

/-- A finger on the screen. -/
def finger (pointerId : Nat) : PointerBlock :=
  ⟨le32 TouchAndPenMsgReader.PT_TOUCH ++ le32 pointerId ++ List.replicate 80 0, rfl⟩

def twoFingers : TouchFrame := ⟨finger 1, [finger 11], by decide, by decide, by decide⟩

theorem sends_twoFingers (fresh : Mem UInt8) :
    TouchAndPen.new.sends [(.touch twoFingers, fresh)] =
      [(.touch twoFingers, TouchAndPen.touchRecord fresh twoFingers.pointers)] := by
  have hnew : ¬ TouchAndPen.new.lastFrameId = twoFingers.first.frameId := by decide
  have hsend : TouchAndPen.new.Send fresh [] twoFingers.pointers =
      (some (TouchAndPen.touchRecord fresh twoFingers.pointers), ⟨twoFingers.first.frameId⟩) := by
    rw [TouchFrame.pointers, TouchAndPen.Send, if_neg hnew, if_pos twoFingers.touch]
  exact TouchAndPen.sends_of_some hsend []

/-- Two fingers under the numbers 1 and 11 are one contact. -/
theorem two_fingers_merge : ¬ ∀ (captured : List (Captured × Mem UInt8)) (fresh : Nat → Mem UInt8)
    (fresh' : Mem UInt8) (c : TcpChannel),
    run TcpChannel.step (.new fresh) (calls captured) = some c →
      ∀ as, Along (TouchAndPenMsgReader.Workloop true true).step
        (fun s => ContactsRight (touched s)) (initial fresh' c.stream) as := by
  intro h
  let captured : List (Captured × Mem UInt8) := [(.touch twoFingers, fun _ => 0)]
  obtain ⟨c, hrun, hstream⟩ := run_calls captured fun _ _ => 0
  have hlength : c.stream.length = TouchAndPen.sizeofPOINTER_DATA := by
    rw [hstream, sends_twoFingers, List.map_singleton, List.flatten_singleton,
      TouchAndPen.touchRecord, Mem.read_length]
  obtain ⟨s, hrecv, hreceived⟩ := recv_record (TouchAndPenMsgReader.Workloop true true)
    (fun _ => 0) hlength
  have hreads : Reads (TouchAndPenMsgReader.Workloop true true) c.stream s :=
    (Reads.initial _ _ _).step hrecv
  have htouched : touched s = [twoFingers.pointers.map PointerBlock.info] := by
    rw [touched_eq (hstream ▸ hreads), hreceived, hlength, delivered, sends_twoFingers,
      Nat.div_self (by decide)]
    rfl
  have hright := (h captured _ _ c hrun [.recv (.takes 888)]).last
    (run_singleton.trans hrecv)
  rw [htouched, contactsRight_iff] at hright
  have hdiffer := List.pairwise_cons.mp (hright _ List.mem_cons_self)
  have hdigits : (finger 1).info.pointerId % 10 = (finger 11).info.pointerId % 10 := by decide
  exact hdiffer.1 _ List.mem_cons_self hdigits

end TouchContacts

end TiraRdp
