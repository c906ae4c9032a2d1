import TiraRdp.Lib.Lts
import TiraRdp.Rdp.Gfx

/-!
# `tiragfx`: the graphics channel of the redirector

The handlers of `Rdp/src/channels/tiragfx/client/tiragfx_main.c`. The redirector hands the data on
and acknowledges the frames itself, so all handlers were emptied but that of the end of a frame.
With the others went the increment of `UnacknowledgedFrames` at the start of one, which `rdpgfx`
still has (`rdpgfxRecvStartFramePdu`).

`TiraGfx` is the channel between two calls: opened and closed (`on_close` resets the counters),
given a decompressed buffer, and taking a PDU of it. Ghost fields, since the channel was opened: how
many starts of frames it was sent, and the ids of the frames it was sent the end of.

Results:
* `counted_along`: as long as there is memory for an acknowledgement, and for fewer than `2 ^ 32`
  frames, `TotalDecodedFrames` counts the ends and each is acknowledged as it should be, while
  `UnacknowledgedFrames` counts down from zero.
* `booked_iff_no_frame`: that `UnacknowledgedFrames` counts the starts less the ends besides holds
  in every state of a run iff there is neither in it.
-/

namespace TiraRdp

open Lib Lib.Lts

def tirardpgfxRecvEndFramePdu : GfxHandler where
  reader := endFrameReader
  after env gfx pdu := endFrame env gfx pdu.frameId
  fine := endFrame_fine

/-- Every other command is a `break`. -/
def tirardpgfxCommands : GfxCmdId → GfxHandler
  | .ENDFRAME => tirardpgfxRecvEndFramePdu
  | _ => .ignore

def tirardpgfxRecvPdu : GfxEnv → RdpgfxPlugin → wStream → Except Nat wStream × RdpgfxPlugin :=
  recvPdu tirardpgfxCommands

structure TiraGfx where
  gfx : RdpgfxPlugin
  isOpen : Bool
  /-- the stream of the `on_data_received` under way -/
  stream : Option wStream
  starts : Nat
  ended : List Nat
  deriving Repr, DecidableEq

namespace TiraGfx

def initial (suspendFrameAcks : Bool) : TiraGfx where
  gfx := ⟨0, 0, suspendFrameAcks, []⟩
  isOpen := false
  stream := none
  starts := 0
  ended := []

inductive Action where
  | onOpen
  /-- `on_data_received`, with what `zgfx_decompress` makes of the data -/
  | onDataReceived (data : Bytes)
  | recvPdu (env : GfxEnv)
  /-- the end of the loop -/
  | endOfData
  | onClose

/-- The command of the PDU at the cursor. -/
def command (s : wStream) : Option GfxCmdId :=
  if s.GetRemainingLength < RDPGFX_HEADER_SIZE then none else GfxCmdId.ofWord (gfxHeader s).cmdId

/-- The frame that the PDU at the cursor is the end of. -/
def endedFrame (s : wStream) : Option Nat :=
  if command s = some .ENDFRAME ∧ 4 ≤ (s.Seek RDPGFX_HEADER_SIZE).GetRemainingLength then
    some ((s.Seek RDPGFX_HEADER_SIZE).Read 4).1
  else none

def step (s : TiraGfx) : Action → Option TiraGfx
  | .onOpen => if s.isOpen then none else some { s with isOpen := true }
  | .onDataReceived data =>
    if s.isOpen ∧ s.stream = none then some { s with stream := some (.ofBuffer data) } else none
  | .recvPdu env =>
    match s.stream with
    | none => none
    | some t =>
      if t.position < t.Length then
        let (result, gfx) := tirardpgfxRecvPdu env s.gfx t
        some { s with
          gfx
          stream := result.toOption
          starts := s.starts + if command t = some .STARTFRAME then 1 else 0
          ended := s.ended ++ (endedFrame t).toList }
      else none
  | .endOfData =>
    match s.stream with
    | none => none
    | some t => if t.position < t.Length then none else some { s with stream := none }
  | .onClose =>
    if s.isOpen ∧ s.stream = none then some (initial s.gfx.suspendFrameAcks) else none

/-- The acknowledgements due: of each frame with its own id and the running total; of the first one
alone while they are suspended. -/
def acknowledgements (suspendFrameAcks : Bool) (ended : List Nat) : List Bytes :=
  if suspendFrameAcks then
    (ended.take 1).map fun frameId =>
      FrameAcknowledge.bytes ⟨SUSPEND_FRAME_ACKNOWLEDGEMENT, frameId, 1⟩
  else
    ended.mapIdx fun i frameId => FrameAcknowledge.bytes ⟨QUEUE_DEPTH_UNAVAILABLE, frameId, i + 1⟩

/-- The books of the channel are right. -/
structure Booked (s : TiraGfx) : Prop where
  total : s.gfx.TotalDecodedFrames = s.ended.length
  acknowledged : s.gfx.written = acknowledgements s.gfx.suspendFrameAcks s.ended
  unacknowledged : (s.gfx.UnacknowledgedFrames : Int) = s.starts - s.ended.length

/-- The PDU that is taken neither starts nor ends a frame. -/
def NoFrame (s : TiraGfx) : Action → Prop
  | .recvPdu _ => ∀ t ∈ s.stream, command t ≠ some .STARTFRAME ∧ endedFrame t = none
  | _ => True

variable {s s' : TiraGfx} {a : Action}

/-- **What `recv_pdu` does to the counters**: nothing, but for the end of a frame. -/
theorem recvPdu_gfx (env : GfxEnv) (gfx : RdpgfxPlugin) (t : wStream) :
    (tirardpgfxRecvPdu env gfx t).2 =
      match endedFrame t with
      | some frameId => (endFrame env gfx frameId).2
      | none => gfx := by
  unfold tirardpgfxRecvPdu endedFrame command
  rw [TiraRdp.recvPdu_gfx]
  by_cases hheader : t.GetRemainingLength < RDPGFX_HEADER_SIZE
  · simp [hheader]
  rw [if_neg hheader, if_neg hheader]
  by_cases hend : GfxCmdId.ofWord (gfxHeader t).cmdId = some .ENDFRAME
  · have hrecv : tirardpgfxCommands .ENDFRAME = tirardpgfxRecvEndFramePdu := rfl
    rw [hend]
    dsimp only
    rw [hrecv]
    unfold GfxHandler.recv tirardpgfxRecvEndFramePdu
    dsimp only
    rw [endFrameReader_read]
    by_cases hlen : (t.Seek RDPGFX_HEADER_SIZE).GetRemainingLength < 4
    · rw [if_pos hlen, if_neg (by omega)]
    · rw [if_neg hlen, if_pos ⟨rfl, by omega⟩]
      rfl
  · rw [if_neg fun h => hend h.1]
    cases hcmd : GfxCmdId.ofWord (gfxHeader t).cmdId with
    | none => rfl
    | some cmd =>
      have hignore : tirardpgfxCommands cmd = .ignore := by
        unfold tirardpgfxCommands
        split
        · exact absurd hcmd hend
        · rfl
      dsimp only
      rw [hignore]
      rfl

/-- The steps, as far as the books go. -/
inductive Moves (s s' : TiraGfx) : Action → Prop
  | still {a : Action} (hgfx : s'.gfx = s.gfx) (hstarts : s'.starts = s.starts)
      (hended : s'.ended = s.ended) (hno : NoFrame s a) : Moves s s' a
  | closes (hs' : s' = initial s.gfx.suspendFrameAcks) : Moves s s' .onClose
  | starts {t : wStream} {env : GfxEnv} (ht : s.stream = some t)
      (hcommand : command t = some .STARTFRAME) (hgfx : s'.gfx = s.gfx)
      (hstarts : s'.starts = s.starts + 1) (hended : s'.ended = s.ended) :
      Moves s s' (.recvPdu env)
  | ends {t : wStream} {env : GfxEnv} {frameId : Nat} (ht : s.stream = some t)
      (hframe : endedFrame t = some frameId) (hgfx : s'.gfx = (endFrame env s.gfx frameId).2)
      (hstarts : s'.starts = s.starts) (hended : s'.ended = s.ended ++ [frameId]) :
      Moves s s' (.recvPdu env)

theorem endedFrame_command {t : wStream} {frameId : Nat} (h : endedFrame t = some frameId) :
    command t = some .ENDFRAME := by
  unfold endedFrame at h
  split_ifs at h with hcommand
  exact hcommand.1

theorem step_moves (hs : s.step a = some s') : Moves s s' a := by
  cases a with
  | onOpen =>
    simp only [step, Option.ite_none_left_eq_some, Option.some.injEq] at hs
    exact hs.2 ▸ .still rfl rfl rfl trivial
  | onDataReceived data =>
    simp only [step, Option.ite_none_right_eq_some, Option.some.injEq] at hs
    exact hs.2 ▸ .still rfl rfl rfl trivial
  | endOfData =>
    cases ht : s.stream with
    | none => simp [step, ht] at hs
    | some t =>
      simp only [step, ht, Option.ite_none_left_eq_some, Option.some.injEq] at hs
      exact hs.2 ▸ .still rfl rfl rfl trivial
  | onClose =>
    simp only [step, Option.ite_none_right_eq_some, Option.some.injEq] at hs
    exact .closes hs.2.symm
  | recvPdu env =>
    cases ht : s.stream with
    | none => simp [step, ht] at hs
    | some t =>
      simp only [step, ht, Option.ite_none_right_eq_some, Option.some.injEq] at hs
      obtain ⟨-, rfl⟩ := hs
      have hgfx := recvPdu_gfx env s.gfx t
      by_cases hcommand : command t = some .STARTFRAME
      · have hframe : endedFrame t = none := by
          cases hframe : endedFrame t with
          | none => rfl
          | some frameId => simp [endedFrame_command hframe] at hcommand
        rw [hframe] at hgfx
        refine .starts ht hcommand hgfx ?_ ?_
        · exact congrArg (s.starts + ·) (if_pos hcommand)
        · simp [hframe]
      · have hstarts : s.starts + (if command t = some .STARTFRAME then 1 else 0) = s.starts := by
          rw [if_neg hcommand, Nat.add_zero]
        cases hframe : endedFrame t with
        | none =>
          rw [hframe] at hgfx
          refine .still hgfx hstarts (List.append_nil _) ?_
          intro u hu
          obtain rfl := Option.some.inj (ht.symm.trans hu)
          exact ⟨hcommand, hframe⟩
        | some frameId =>
          rw [hframe] at hgfx
          exact .ends ht hframe hgfx hstarts rfl

/-! ## What is counted right -/

theorem acknowledgements_concat (suspendFrameAcks : Bool) (ended : List Nat) (frameId : Nat) :
    acknowledgements suspendFrameAcks (ended ++ [frameId]) =
      acknowledgements suspendFrameAcks ended ++
        if suspendFrameAcks then
          if ended.length + 1 = 1 then
            [FrameAcknowledge.bytes ⟨SUSPEND_FRAME_ACKNOWLEDGEMENT, frameId, 1⟩]
          else []
        else [FrameAcknowledge.bytes ⟨QUEUE_DEPTH_UNAVAILABLE, frameId, ended.length + 1⟩] := by
  unfold acknowledgements
  cases suspendFrameAcks with
  | false => simp
  | true => cases ended <;> simp

/-- The counters after any number of frames, and the acknowledgements of fewer than `2 ^ 32`. -/
structure Counted (s : TiraGfx) : Prop where
  total : s.gfx.TotalDecodedFrames = u32 s.ended.length
  unacknowledged : s.gfx.UnacknowledgedFrames = subU32 0 s.ended.length
  acknowledged : s.ended.length < 2 ^ 32 →
    s.gfx.written = acknowledgements s.gfx.suspendFrameAcks s.ended

theorem Counted.initial (suspendFrameAcks : Bool) : Counted (initial suspendFrameAcks) where
  total := rfl
  unacknowledged := show 0 = subU32 0 0 by decide
  acknowledged _ := by cases suspendFrameAcks <;> rfl

/-- There is memory for an acknowledgement. -/
def Action.HasMemory : Action → Prop
  | .recvPdu env => env.malloc = true
  | _ => True

theorem Counted.step (h : Counted s) (hmemory : a.HasMemory) (hs : s.step a = some s') :
    Counted s' := by
  cases step_moves hs with
  | still hgfx hstarts hended hno =>
    exact ⟨by rw [hgfx, hended, h.total], by rw [hgfx, hended, h.unacknowledged],
      by rw [hgfx, hended]; exact h.acknowledged⟩
  | closes hs' => exact hs' ▸ .initial _
  | starts ht hcommand hgfx hstarts hended =>
    exact ⟨by rw [hgfx, hended, h.total], by rw [hgfx, hended, h.unacknowledged],
      by rw [hgfx, hended]; exact h.acknowledged⟩
  | @ends t env frameId ht hframe hgfx hstarts hended =>
    obtain ⟨hunacknowledged, hcount, hsuspend⟩ := endFrame_counters env s.gfx frameId
    have hwritten := endFrame_written hmemory s.gfx frameId
    refine ⟨?_, ?_, fun hlt => ?_⟩
    · rw [hgfx, hcount, hended, h.total, List.length_append, List.length_singleton]
      unfold u32
      omega
    · rw [hgfx, hunacknowledged, hended, h.unacknowledged, List.length_append,
        List.length_singleton]
      unfold subU32 u32
      omega
    · rw [hended, List.length_append, List.length_singleton] at hlt
      have htotal : u32 (s.gfx.TotalDecodedFrames + 1) = s.ended.length + 1 := by
        have hword : u32 s.ended.length = s.ended.length := u32_of_lt (by omega)
        rw [h.total, hword, u32_of_lt hlt]
      rw [hgfx, hwritten, hsuspend, hended, acknowledgements_concat, h.acknowledged (by omega),
        htotal]

/-- **The total and the acknowledgements** are right in every state of a run, as long as there is
memory and for fewer than `2 ^ 32` frames; the counter of the frames not acknowledged only goes
down. -/
theorem counted_along (suspendFrameAcks : Bool) (as : List Action)
    (hmemory : ∀ a ∈ as, a.HasMemory) :
    Along step (fun s =>
      s.gfx.UnacknowledgedFrames = subU32 0 s.ended.length ∧
        (s.ended.length < 2 ^ 32 →
          s.gfx.TotalDecodedFrames = s.ended.length ∧
            s.gfx.written = acknowledgements s.gfx.suspendFrameAcks s.ended))
      (initial suspendFrameAcks) as :=
  along_of_invariant (I := Counted)
    (fun _ h => ⟨h.unacknowledged, fun hlt => ⟨h.total.trans (u32_of_lt hlt), h.acknowledged hlt⟩⟩)
    (fun _ _ _ h hm hs => h.step hm hs) (Counted.initial suspendFrameAcks) hmemory

/-! ## What is not -/

/-- No frame was started or ended. -/
structure Quiet (s : TiraGfx) : Prop where
  total : s.gfx.TotalDecodedFrames = 0
  unacknowledged : s.gfx.UnacknowledgedFrames = 0
  written : s.gfx.written = []
  starts : s.starts = 0
  ended : s.ended = []

theorem Quiet.initial (suspendFrameAcks : Bool) : Quiet (initial suspendFrameAcks) :=
  ⟨rfl, rfl, rfl, rfl, rfl⟩

theorem Quiet.booked (h : Quiet s) : Booked s where
  total := by rw [h.total, h.ended]; rfl
  acknowledged := by
    rw [h.written, h.ended]
    cases s.gfx.suspendFrameAcks <;> rfl
  unacknowledged := by rw [h.unacknowledged, h.starts, h.ended]; rfl

theorem Quiet.step (h : Quiet s) (hno : NoFrame s a) (hs : s.step a = some s') : Quiet s' := by
  cases step_moves hs with
  | still hgfx hstarts hended =>
    exact ⟨hgfx ▸ h.total, hgfx ▸ h.unacknowledged, hgfx ▸ h.written, hstarts.trans h.starts,
      hended.trans h.ended⟩
  | closes hs' => exact hs' ▸ .initial _
  | starts ht hcommand => exact absurd hcommand (hno _ ht).1
  | ends ht hframe =>
    rw [(hno _ ht).2] at hframe
    simp at hframe

/-- The first frame that is started or ended is booked wrong. -/
theorem not_booked_of_frame (h : Quiet s) (hno : ¬ NoFrame s a) (hs : s.step a = some s') :
    ¬ Booked s' := by
  intro hbooked
  have hcount := hbooked.unacknowledged
  cases step_moves hs with
  | still hgfx hstarts hended hquiet => exact hno hquiet
  | closes hs' => exact hno trivial
  | starts ht hcommand hgfx hstarts hended =>
    rw [hgfx, h.unacknowledged, hstarts, h.starts, hended, h.ended] at hcount
    exact absurd hcount (by decide)
  | @ends t env frameId ht hframe hgfx hstarts hended =>
    rw [hgfx, (endFrame_counters env s.gfx frameId).1, h.unacknowledged, hstarts, h.starts, hended,
      h.ended, List.nil_append, List.length_singleton] at hcount
    exact absurd hcount (by decide)

/-- **The books are right** in every state of a run exactly when no frame is started or ended
in it. -/
theorem booked_iff_no_frame (suspendFrameAcks : Bool) (as : List Action) (s : TiraGfx)
    (hrun : run step (initial suspendFrameAcks) as = some s) :
    Meets step NoFrame (initial suspendFrameAcks) as ↔
      Along step Booked (initial suspendFrameAcks) as :=
  meets_iff_along (I := Quiet) (p := fun _ => True) (fun _ h => h.booked)
    (fun _ _ _ h _ hno hs => h.step hno hs) (fun _ _ _ h _ hno hs => not_booked_of_frame h hno hs)
    (Quiet.initial suspendFrameAcks) (fun _ _ => trivial) hrun

instance (s : TiraGfx) : DecidablePred s.NoFrame
  | .recvPdu _ => inferInstanceAs
      (Decidable (∀ t ∈ s.stream, command t ≠ some .STARTFRAME ∧ endedFrame t = none))
  | .onOpen | .onDataReceived _ | .endOfData | .onClose => .isTrue trivial

/-- A surface is made, and the channel closed and opened again. -/
def oneSurface : List Action :=
  [.onOpen, .onDataReceived [0x09, 0, 0, 0, 15, 0, 0, 0, 1, 0, 64, 0, 48, 0, 0x20],
    .recvPdu .fine, .endOfData, .onClose, .onOpen]

theorem booked_iff_no_frame_surface :
    (run step (initial false) oneSurface).isSome = true ∧
      Along step Booked (initial false) oneSurface := by
  have hsome : (run step (initial false) oneSurface).isSome = true := by decide +kernel
  obtain ⟨s, hs⟩ := Option.isSome_iff_exists.mp hsome
  exact ⟨hsome, (booked_iff_no_frame false oneSurface s hs).mp (by decide +kernel)⟩

/-- One frame, and the counter of the frames not acknowledged has gone below zero. -/
theorem frame_unacknowledged :
    ¬ ∀ (as : List Action) (s : TiraGfx), run step (initial false) as = some s → Booked s := by
  intro h
  have hend : (run step (initial false)
      [.onOpen, .onDataReceived ([0x0B, 0, 0, 0, 16, 0, 0, 0, 1, 2, 3, 4, 5, 6, 7, 8] ++
        [0x0C, 0, 0, 0, 12, 0, 0, 0, 5, 6, 7, 8]), .recvPdu .fine, .recvPdu .fine]).any
      (fun s => s.gfx.UnacknowledgedFrames = 2 ^ 32 - 1 ∧ s.starts = 1 ∧ s.ended.length = 1) =
        true := by
    decide +kernel
  obtain ⟨s, hs, hunacknowledged, hstarts, hended⟩ := run_of_any hend
  have hcount := (h _ s hs).unacknowledged
  rw [hunacknowledged, hstarts, hended] at hcount
  exact absurd hcount (by decide)

end TiraGfx

end TiraRdp
