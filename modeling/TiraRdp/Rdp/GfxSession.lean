import Mathlib.Data.List.Induction
import TiraRdp.Rdp.Codec.ZgfxMessage
import TiraRdp.Rdp.GfxLoop
import TiraRdp.Rdp.StaticChannel

/-!
# The graphics channels on compressed data

`tirardpgfx_on_data_received` (`tiragfx_main.c:336-376`) and `rdpgfx_on_data_received_Core`
(`rdpgfx_main.c:1153-1188`) with their decompressor: a message goes through `zgfx_decompress`, and
`recv_pdu` takes the PDUs of what comes out of it. The decompressor and the counters are kept from
one message to the next. That `tiragfx` first hands the message on to the projector, as it came, is
another matter.

* `onDataReceived` is one call, `onDataReceivedAll` the calls of a session.
* `ServerPdu` is a PDU with the header that announces its length.

Results: a session of messages that are spelled well is the same, for either channel and whatever its
calls meet, as one of the texts that the messages mean (`session_transparent`); and where nothing
fails, `tiragfx` acknowledges the frames that end in it, each once and in order
(`session_acknowledges`).
-/

namespace TiraRdp.GfxSession

open Lib Zgfx Lz77

/-! ## The calls -/

/-- What a call meets: what `malloc` leaves in the room for the text, whether there is memory for a
stream on it, and what the calls of `recv_pdu` meet. -/
structure DataEnv where
  found : Nat → UInt8
  Stream_New : Bool
  envs : Nat → GfxEnv

/-- The `while` around `recv_pdu`, and the error it ends with. -/
def recvPdus (c : GfxChannel) : Nat → (Nat → GfxEnv) → RdpgfxPlugin → wStream →
    Except Halt (Nat × RdpgfxPlugin)
  | 0, _, gfx, s => if s.position < s.Length then .error .hang else .ok (CHANNEL_RC_OK, gfx)
  | n + 1, envs, gfx, s =>
    if s.position < s.Length then
      match recvPdu c.commands (envs 0) gfx s with
      | (.error e, gfx) => .ok (e, gfx)
      | (.ok s, gfx) => recvPdus c n (fun i => envs (i + 1)) gfx s
    else .ok (CHANNEL_RC_OK, gfx)

/-- The PDUs of a text. -/
def recvText (c : GfxChannel) (fuel : Nat) (env : DataEnv) (gfx : RdpgfxPlugin) (text : Bytes) :
    Except Halt (Nat × RdpgfxPlugin) :=
  if env.Stream_New then recvPdus c fuel env.envs gfx (.ofBuffer text)
  else .ok (CHANNEL_RC_NO_MEMORY, gfx)

/-- The channel between two calls. -/
structure Channel where
  zgfx : ZGFX_CONTEXT
  gfx : RdpgfxPlugin

/-- `DstSize` bytes, of which the decompressor has written the first. -/
def textOf (env : DataEnv) (dst : Bytes × Nat) : Bytes :=
  dst.1 ++ (List.range (dst.2 - dst.1.length)).map env.found

def onDataReceived (c : GfxChannel) (fuel : Nat) (env : DataEnv) (ch : Channel) (data : Bytes) :
    Except Halt (Nat × Channel) := do
  let (status, dst, zgfx) ← zgfx_decompress fuel ch.zgfx data
  if status < 0 then .ok (StaticChannel.ERROR_INTERNAL_ERROR, { ch with zgfx })
  else do
    let (error, gfx) ← recvText c fuel env ch.gfx (textOf env (dst.getD ([], 0)))
    .ok (error, ⟨zgfx, gfx⟩)

/-- The calls of a session, and what each answers. -/
def onDataReceivedAll (c : GfxChannel) (fuel : Nat) :
    List (DataEnv × Bytes) → Channel → Except Halt (List Nat × Channel)
  | [], ch => .ok ([], ch)
  | (env, data) :: more, ch => do
    let (error, ch) ← onDataReceived c fuel env ch data
    let (errors, ch) ← onDataReceivedAll c fuel more ch
    .ok (error :: errors, ch)

/-- The session without a decompressor. -/
def recvTexts (c : GfxChannel) (fuel : Nat) :
    List (DataEnv × Bytes) → RdpgfxPlugin → Except Halt (List Nat × RdpgfxPlugin)
  | [], gfx => .ok ([], gfx)
  | (env, text) :: more, gfx => do
    let (error, gfx) ← recvText c fuel env gfx text
    let (errors, gfx) ← recvTexts c fuel more gfx
    .ok (error :: errors, gfx)

/-! ## The decompressor is not seen -/

/-- A call takes the PDUs of the text that its message means. -/
theorem onDataReceived_eq {c : GfxChannel} {fuel : Nat} {history : Bytes} {ch : Channel}
    (env : DataEnv) (m : Message) (h : Idle history ch.zgfx) (hfuel : 8 * m.bytes.length + 24 ≤ fuel) :
    ∃ z xs, (expandAll history m.tokens).drop history.length = xs ∧ Idle (history ++ xs) z ∧
      onDataReceived c fuel env ch m.bytes =
        (recvText c fuel env ch.gfx xs).map fun result =>
          (result.1, ⟨z, result.2⟩) := by
  obtain ⟨z, xs, hrun, hexpand, hz⟩ := message_ok m.spells h m.text_lt m.length_lt hfuel
  have hdst : textOf env (xs, xs.length) = xs := by
    unfold textOf
    rw [Nat.sub_self, List.range_zero, List.map_nil, List.append_nil]
  refine ⟨z, xs, by rw [hexpand, List.drop_left], hz, ?_⟩
  unfold onDataReceived
  rw [hrun]
  simp only [bind, Except.bind]
  rw [if_neg (by decide), Option.getD_some, hdst]
  rcases recvText c fuel env ch.gfx xs with e | result <;> rfl

theorem transparent_from (c : GfxChannel) (fuel : Nat) (envs : List DataEnv)
    {messages : List Message} {history : Bytes} (ch : Channel) (hlen : envs.length = messages.length)
    (hfuel : Enough messages fuel) (h : Idle history ch.zgfx) :
    (onDataReceivedAll c fuel (envs.zip (messages.map Message.bytes)) ch).map
        (fun result => (result.1, result.2.gfx)) =
      recvTexts c fuel (envs.zip (expandEach history (messages.map Message.tokens))) ch.gfx := by
  induction messages generalizing envs history ch with
  | nil => cases envs <;> rfl
  | cons m messages ih =>
    cases envs with
    | nil => simp at hlen
    | cons env envs =>
      obtain ⟨z, xs, htext, hz, hcall⟩ := onDataReceived_eq (c := c) env m h
        (hfuel m List.mem_cons_self)
      rw [List.map_cons, List.map_cons, expandEach, htext, List.zip_cons_cons, List.zip_cons_cons,
        onDataReceivedAll, recvTexts, hcall]
      rcases recvText c fuel env ch.gfx xs with e | ⟨error, gfx⟩
      · rfl
      · have hrest := ih envs ⟨z, gfx⟩ (Nat.succ.inj hlen)
          (fun n hn => hfuel n (List.mem_cons_of_mem m hn)) hz
        simp only [bind, Except.bind, Except.map]
        rw [← hrest]
        rcases onDataReceivedAll c fuel (envs.zip (messages.map Message.bytes)) ⟨z, gfx⟩ with
          e | ⟨errors, ch'⟩ <;> rfl

/-- **Compression is not seen**: from a new channel on, the calls answer what they would answer to
the texts themselves, and leave the same counters. -/
theorem session_transparent (c : GfxChannel) (messages : List Message) :
    ∃ enough, ∀ fuel, enough ≤ fuel → ∀ (envs : List DataEnv) (gfx : RdpgfxPlugin),
      envs.length = messages.length →
      (onDataReceivedAll c fuel (envs.zip (messages.map Message.bytes)) ⟨zgfx_context_new, gfx⟩).map
          (fun result => (result.1, result.2.gfx)) =
        recvTexts c fuel (envs.zip
          (expandEach (List.replicate 2500000 0) (messages.map Message.tokens))) gfx := by
  obtain ⟨enough, henough⟩ := enough_exists messages
  refine ⟨enough, fun fuel hle envs gfx hlen => ?_⟩
  exact transparent_from c fuel envs _ hlen (fun m hm => Nat.le_trans (henough m hm) hle)
    ⟨zgfx_context_new_keeps, rfl⟩

/-! ## The PDUs of a text -/

/-- A PDU of the server, with what `tiragfx` asks of it: a command that there is, and behind the
header of an end of frame the id. -/
structure ServerPdu where
  cmdId : Nat
  flags : Nat
  body : Bytes
  cmdId_lt : cmdId < 2 ^ 16
  known : (GfxCmdId.ofWord cmdId).isSome
  frame : GfxCmdId.ofWord cmdId = some .ENDFRAME → 4 ≤ body.length

namespace ServerPdu

def header (pdu : ServerPdu) : GfxHeader := ⟨pdu.cmdId, pdu.flags, 8 + pdu.body.length⟩

def bytes (pdu : ServerPdu) : Bytes := pdu.header.bytes ++ pdu.body

/-- The frame that the PDU is the end of. -/
def endedFrame (pdu : ServerPdu) : Option Nat :=
  if GfxCmdId.ofWord pdu.cmdId = some .ENDFRAME then some (ofLe (pdu.body.take 4)) else none

variable {before after : Bytes} {pdu : ServerPdu}

theorem bytes_length (pdu : ServerPdu) : pdu.bytes.length = 8 + pdu.body.length := by
  unfold bytes header GfxHeader.bytes
  rw [List.length_append]
  rfl

/-- What stands at the cursor. -/
theorem pointer_at (before xs after : Bytes) :
    (wStream.mk (before ++ (xs ++ after)) before.length).Pointer xs.length = xs := by
  unfold wStream.Pointer
  rw [List.drop_left, List.take_left]

theorem ofLe_le16 {n : Nat} (h : n < 2 ^ 16) : ofLe (le16 n) = n := by
  simp only [ofLe, le16, List.foldr_cons, List.foldr_nil, UInt8.toNat_ofNat']
  omega

section At

variable (hlt : (before ++ (pdu.bytes ++ after)).length < 2 ^ 31)

include hlt

theorem within : (wStream.mk (before ++ (pdu.bytes ++ after)) before.length).Within where
  position_le := by
    unfold wStream.Length
    rw [List.length_append]
    exact Nat.le_add_right _ _
  length_lt := hlt

theorem remaining : (wStream.mk (before ++ (pdu.bytes ++ after)) before.length).GetRemainingLength =
    8 + pdu.body.length + after.length := by
  rw [(within hlt).remaining]
  unfold wStream.Length
  rw [List.length_append, List.length_append, bytes_length]
  exact Nat.add_sub_cancel_left _ _

/-- The cursor some bytes into the PDU. -/
theorem seek_eq (front rest : Bytes) (hsplit : pdu.bytes = front ++ rest) :
    (wStream.mk (before ++ (pdu.bytes ++ after)) before.length).Seek front.length =
      ⟨(before ++ front) ++ (rest ++ after), (before ++ front).length⟩ := by
  have hle : before.length + front.length < 2 ^ 32 := by
    rw [List.length_append, hsplit, List.length_append, List.length_append] at hlt
    omega
  unfold wStream.Seek wStream.SetPosition
  rw [u32_of_lt hle, hsplit, List.length_append]
  simp only [List.append_assoc]

theorem gfxHeader_eq :
    (gfxHeader ⟨before ++ (pdu.bytes ++ after), before.length⟩).cmdId = pdu.cmdId ∧
      (gfxHeader ⟨before ++ (pdu.bytes ++ after), before.length⟩).pduLength =
        8 + pdu.body.length := by
  have hbody : 8 + pdu.body.length < 2 ^ 32 := by
    rw [List.length_append, List.length_append, bytes_length] at hlt
    omega
  constructor
  · have hfront : pdu.bytes ++ after = le16 pdu.cmdId ++
        (le16 pdu.flags ++ (le32 (8 + pdu.body.length) ++ pdu.body) ++ after) := by
      simp only [bytes, header, GfxHeader.bytes, List.append_assoc]
    have hread := pointer_at before (le16 pdu.cmdId)
      (le16 pdu.flags ++ (le32 (8 + pdu.body.length) ++ pdu.body) ++ after)
    rw [← hfront] at hread
    exact (congrArg ofLe hread).trans (ofLe_le16 pdu.cmdId_lt)
  · have hsplit : pdu.bytes = (le16 pdu.cmdId ++ le16 pdu.flags) ++
        (le32 (8 + pdu.body.length) ++ pdu.body) := by
      simp only [bytes, header, GfxHeader.bytes, List.append_assoc]
    have hseek := seek_eq hlt _ _ hsplit
    have hread := pointer_at (before ++ (le16 pdu.cmdId ++ le16 pdu.flags))
      (le32 (8 + pdu.body.length)) (pdu.body ++ after)
    rw [← List.append_assoc (le32 _), ← hseek] at hread
    exact (congrArg ofLe hread).trans (ofLe_le32 hbody)

theorem seek_body :
    (wStream.mk (before ++ (pdu.bytes ++ after)) before.length).Seek RDPGFX_HEADER_SIZE =
      ⟨(before ++ pdu.header.bytes) ++ (pdu.body ++ after), (before ++ pdu.header.bytes).length⟩ :=
  seek_eq hlt pdu.header.bytes pdu.body rfl

theorem endedFrame_at :
    TiraGfx.endedFrame ⟨before ++ (pdu.bytes ++ after), before.length⟩ = pdu.endedFrame := by
  have hcommand : TiraGfx.command ⟨before ++ (pdu.bytes ++ after), before.length⟩ =
      GfxCmdId.ofWord pdu.cmdId := by
    unfold TiraGfx.command RDPGFX_HEADER_SIZE
    rw [remaining hlt, if_neg (by omega), (gfxHeader_eq hlt).1]
  have hleft : ((wStream.mk (before ++ (pdu.bytes ++ after)) before.length).Seek
      RDPGFX_HEADER_SIZE).GetRemainingLength = pdu.body.length + after.length := by
    have h8 : RDPGFX_HEADER_SIZE ≤ (wStream.mk (before ++ (pdu.bytes ++ after))
        before.length).GetRemainingLength := by
      rw [remaining hlt]
      unfold RDPGFX_HEADER_SIZE
      omega
    rw [(within hlt).remaining_seek h8, remaining hlt]
    unfold RDPGFX_HEADER_SIZE
    omega
  unfold TiraGfx.endedFrame endedFrame
  rw [hcommand, hleft]
  by_cases hframe : GfxCmdId.ofWord pdu.cmdId = some .ENDFRAME
  · have hbody := pdu.frame hframe
    have htake : (pdu.body.take 4).length = 4 := List.length_take_of_le hbody
    rw [if_pos ⟨hframe, by omega⟩, if_pos hframe, seek_body hlt]
    have hread := pointer_at (before ++ pdu.header.bytes) (pdu.body.take 4)
      (pdu.body.drop 4 ++ after)
    rw [← List.append_assoc (pdu.body.take 4), List.take_append_drop, htake] at hread
    exact congrArg some (congrArg ofLe hread)
  · rw [if_neg fun h => hframe h.1, if_neg hframe]

theorem accepts :
    Accepts GfxChannel.tiragfx.commands ⟨before ++ (pdu.bytes ++ after), before.length⟩ := by
  have h8 : RDPGFX_HEADER_SIZE ≤ (wStream.mk (before ++ (pdu.bytes ++ after))
      before.length).GetRemainingLength := by
    rw [remaining hlt]
    unfold RDPGFX_HEADER_SIZE
    omega
  obtain ⟨cmd, hcmd⟩ := Option.isSome_iff_exists.mp pdu.known
  refine ⟨h8, cmd, by rw [(gfxHeader_eq hlt).1, hcmd], ?_⟩
  by_cases hframe : cmd = .ENDFRAME
  · subst hframe
    have hbody := pdu.frame hcmd
    have hfits : 4 ≤ ((wStream.mk (before ++ (pdu.bytes ++ after)) before.length).Seek
        RDPGFX_HEADER_SIZE).GetRemainingLength := by
      rw [(within hlt).remaining_seek h8, remaining hlt]
      unfold RDPGFX_HEADER_SIZE
      omega
    exact ⟨hfits, fun _ hnone => nomatch hnone⟩
  · have hignore : GfxChannel.tiragfx.commands cmd = .ignore := by
      cases cmd <;> first | rfl | exact absurd rfl hframe
    rw [hignore]
    trivial

/-- `recv_pdu` takes the PDU, counts what it ends, and stands behind it. -/
theorem recvPdu_eq (gfx : RdpgfxPlugin) :
    recvPdu GfxChannel.tiragfx.commands .fine gfx ⟨before ++ (pdu.bytes ++ after), before.length⟩ =
      (.ok ⟨(before ++ pdu.bytes) ++ after, (before ++ pdu.bytes).length⟩,
        match pdu.endedFrame with
        | some frameId => (endFrame .fine gfx frameId).2
        | none => gfx) := by
  obtain ⟨t, ht⟩ := recvPdu_accepts gfx (within hlt) (accepts hlt)
  obtain ⟨-, hbuffer, hposition⟩ := recvPdu_ok (within hlt) ht
  have hstream : t = ⟨(before ++ pdu.bytes) ++ after, (before ++ pdu.bytes).length⟩ := by
    rcases t with ⟨buffer, position⟩
    rw [(gfxHeader_eq hlt).2] at hposition
    rw [List.length_append, List.length_append] at hlt
    have hsum : u32 (before.length + (8 + pdu.body.length)) = (before ++ pdu.bytes).length := by
      rw [List.length_append, bytes_length]
      rw [bytes_length] at hlt
      exact u32_of_lt (by omega)
    rw [List.append_assoc]
    exact congrArg₂ wStream.mk hbuffer (hposition.trans hsum)
  have hgfx := TiraGfx.recvPdu_gfx .fine gfx ⟨before ++ (pdu.bytes ++ after), before.length⟩
  rw [endedFrame_at hlt] at hgfx
  exact Prod.ext (ht.trans (congrArg _ hstream)) hgfx

end At

/-- The counters after the end of these frames. -/
def afterFrames (gfx : RdpgfxPlugin) (frames : List Nat) : RdpgfxPlugin :=
  frames.foldl (fun gfx frameId => (endFrame .fine gfx frameId).2) gfx

theorem afterFrames_suspend (gfx : RdpgfxPlugin) (frames : List Nat) :
    (afterFrames gfx frames).suspendFrameAcks = gfx.suspendFrameAcks := by
  induction frames generalizing gfx with
  | nil => rfl
  | cons frameId frames ih => exact (ih _).trans (endFrame_counters .fine gfx frameId).2.2

/-- **The PDUs of a text** are taken one after the other, and each counts what it ends. -/
theorem recvPdus_eq (before : Bytes) {pdus : List ServerPdu} {n : Nat} (gfx : RdpgfxPlugin)
    (hlt : (before ++ pdus.flatMap bytes).length < 2 ^ 31) (hn : pdus.length ≤ n) :
    recvPdus .tiragfx n (fun _ => .fine) gfx ⟨before ++ pdus.flatMap bytes, before.length⟩ =
      .ok (CHANNEL_RC_OK, afterFrames gfx (pdus.filterMap endedFrame)) := by
  induction pdus generalizing before gfx n with
  | nil =>
    have hend : ¬ before.length < (before ++ ([] : List ServerPdu).flatMap bytes).length := by simp
    cases n with
    | zero => exact if_neg hend
    | succ n => exact if_neg hend
  | cons pdu pdus ih =>
    obtain ⟨n, rfl⟩ : ∃ m, n = m + 1 := ⟨n - 1, by rw [List.length_cons] at hn; omega⟩
    rw [List.flatMap_cons] at hlt ⊢
    have hmore : (wStream.mk (before ++ (pdu.bytes ++ pdus.flatMap bytes)) before.length).position <
        (wStream.mk (before ++ (pdu.bytes ++ pdus.flatMap bytes)) before.length).Length := by
      unfold wStream.Length
      rw [List.length_append, List.length_append, bytes_length]
      dsimp only
      omega
    rw [recvPdus, if_pos hmore, recvPdu_eq hlt]
    dsimp only
    rw [ih _ _ (by rw [List.append_assoc]; exact hlt) (Nat.le_of_succ_le_succ hn)]
    cases hframe : pdu.endedFrame with
    | none => rw [List.filterMap_cons_none hframe]
    | some frameId =>
      rw [List.filterMap_cons_some hframe]
      rfl

/-- The counters after one PDU, by the step of `TiraGfx` that takes it. -/
theorem counted_recvPdu {gfx : RdpgfxPlugin} {ended : List Nat} {t : wStream}
    (hmore : t.position < t.Length) (h : TiraGfx.Counted ⟨gfx, true, none, 0, ended⟩) :
    TiraGfx.Counted ⟨(tirardpgfxRecvPdu .fine gfx t).2, true, none, 0,
      ended ++ (TiraGfx.endedFrame t).toList⟩ := by
  have hstep : TiraGfx.step ⟨gfx, true, some t, 0, ended⟩ (.recvPdu .fine) =
      some ⟨(tirardpgfxRecvPdu .fine gfx t).2, true, (tirardpgfxRecvPdu .fine gfx t).1.toOption,
        0 + (if TiraGfx.command t = some .STARTFRAME then 1 else 0),
        ended ++ (TiraGfx.endedFrame t).toList⟩ := by
    simp only [TiraGfx.step, hmore, if_true]
  have hbefore : TiraGfx.Counted ⟨gfx, true, some t, 0, ended⟩ :=
    ⟨h.total, h.unacknowledged, h.acknowledged⟩
  have hafter := hbefore.step (show TiraGfx.Action.HasMemory (.recvPdu .fine) from rfl) hstep
  exact ⟨hafter.total, hafter.unacknowledged, hafter.acknowledged⟩

/-- The counters of the channel after PDUs, taken from the run of `TiraGfx` that they make. -/
theorem counted_pdus (suspendFrameAcks : Bool) (pdus : List ServerPdu)
    (hshort : ∀ pdu ∈ pdus, pdu.bytes.length < 2 ^ 31) :
    TiraGfx.Counted ⟨afterFrames ⟨0, 0, suspendFrameAcks, []⟩ (pdus.filterMap endedFrame), true,
      none, 0, pdus.filterMap endedFrame⟩ := by
  induction pdus using List.reverseRecOn with
  | nil =>
    have h := TiraGfx.Counted.initial suspendFrameAcks
    exact ⟨h.total, h.unacknowledged, h.acknowledged⟩
  | append_singleton pdus pdu ih =>
    have hbefore := ih fun p hp => hshort p (List.mem_append_left _ hp)
    have hlt : (([] : Bytes) ++ (pdu.bytes ++ [])).length < 2 ^ 31 := by
      rw [List.append_nil]
      exact hshort pdu (List.mem_append_right _ (List.mem_singleton_self pdu))
    have hmore : 0 < (([] : Bytes) ++ (pdu.bytes ++ [])).length := by
      rw [List.nil_append, List.append_nil, bytes_length]
      omega
    have hafter := counted_recvPdu (t := ⟨[] ++ (pdu.bytes ++ []), 0⟩) hmore hbefore
    have hended : (pdus ++ [pdu]).filterMap endedFrame =
        pdus.filterMap endedFrame ++ pdu.endedFrame.toList := by
      rw [List.filterMap_append, List.filterMap_cons, List.filterMap_nil]
      cases pdu.endedFrame <;> rfl
    have hgfx : afterFrames ⟨0, 0, suspendFrameAcks, []⟩ ((pdus ++ [pdu]).filterMap endedFrame) =
        (tirardpgfxRecvPdu .fine (afterFrames ⟨0, 0, suspendFrameAcks, []⟩
          (pdus.filterMap endedFrame)) ⟨[] ++ (pdu.bytes ++ []), 0⟩).2 := by
      have hrecv := congrArg Prod.snd (recvPdu_eq hlt (afterFrames ⟨0, 0, suspendFrameAcks, []⟩
        (pdus.filterMap endedFrame)))
      refine Eq.trans ?_ hrecv.symm
      rw [hended]
      unfold afterFrames
      rw [List.foldl_append]
      cases pdu.endedFrame <;> rfl
    have hframe := endedFrame_at hlt
    rw [List.length_nil] at hframe
    rw [hgfx, hended, ← hframe]
    exact ⟨hafter.total, hafter.unacknowledged, hafter.acknowledged⟩

end ServerPdu

/-! ## The acknowledgements of a session -/

/-- A text for each message, of whole PDUs. -/
structure Texts (history : Bytes) (messages : List Message) (pdus : List (List ServerPdu)) :
    Prop where
  texts : expandEach history (messages.map Message.tokens) =
    pdus.map fun group => group.flatMap ServerPdu.bytes
  length_lt : ∀ group ∈ pdus, (group.flatMap ServerPdu.bytes).length < 2 ^ 31

theorem recvTexts_eq {fuel : Nat} {pdus : List (List ServerPdu)} (found : Nat → UInt8)
    (gfx : RdpgfxPlugin) (hlt : ∀ group ∈ pdus, (group.flatMap ServerPdu.bytes).length < 2 ^ 31)
    (hfuel : ∀ group ∈ pdus, group.length ≤ fuel) :
    recvTexts .tiragfx fuel ((List.replicate pdus.length ⟨found, true, fun _ => .fine⟩).zip
        (pdus.map fun group => group.flatMap ServerPdu.bytes)) gfx =
      .ok (List.replicate pdus.length CHANNEL_RC_OK,
        ServerPdu.afterFrames gfx (pdus.flatten.filterMap ServerPdu.endedFrame)) := by
  induction pdus generalizing gfx with
  | nil => rfl
  | cons group pdus ih =>
    have hgroup := ServerPdu.recvPdus_eq [] gfx (hlt group List.mem_cons_self)
      (hfuel group List.mem_cons_self)
    have hrest := ih (ServerPdu.afterFrames gfx (group.filterMap ServerPdu.endedFrame))
      (fun g hg => hlt g (List.mem_cons_of_mem group hg))
      (fun g hg => hfuel g (List.mem_cons_of_mem group hg))
    rw [List.nil_append, List.length_nil] at hgroup
    rw [List.length_cons, List.replicate_succ, List.map_cons, List.zip_cons_cons, recvTexts,
      recvText, if_pos rfl, wStream.ofBuffer, hgroup]
    simp only [bind, Except.bind]
    rw [hrest, List.flatten_cons, List.filterMap_append]
    unfold ServerPdu.afterFrames
    rw [List.foldl_append]
    rfl

/-- **What is acknowledged.** Of a session of compressed messages that means whole PDUs, in any
grouping, every call succeeds, the frames that end are counted, and each of them is acknowledged as
it should be, in order. -/
theorem session_acknowledges (suspendFrameAcks : Bool) (found : Nat → UInt8) (messages : List Message)
    (pdus : List (List ServerPdu)) (h : Texts (List.replicate 2500000 0) messages pdus)
    (hfew : (pdus.flatten.filterMap ServerPdu.endedFrame).length < 2 ^ 32) :
    ∃ fuel ch, onDataReceivedAll .tiragfx fuel
        ((List.replicate messages.length ⟨found, true, fun _ => .fine⟩).zip (messages.map Message.bytes))
        ⟨zgfx_context_new, ⟨0, 0, suspendFrameAcks, []⟩⟩ =
          .ok (List.replicate messages.length CHANNEL_RC_OK, ch) ∧
      ch.gfx.TotalDecodedFrames = (pdus.flatten.filterMap ServerPdu.endedFrame).length ∧
      ch.gfx.written = TiraGfx.acknowledgements suspendFrameAcks
        (pdus.flatten.filterMap ServerPdu.endedFrame) := by
  obtain ⟨enough, henough⟩ := enough_exists messages
  have hlen : messages.length = pdus.length := by
    have hlength := congrArg List.length h.texts
    rwa [expandEach_length, List.length_map, List.length_map] at hlength
  -- the decompressor is not seen, and the texts are taken PDU by PDU
  have hplain := transparent_from .tiragfx (enough + pdus.flatten.length)
    (List.replicate messages.length ⟨found, true, fun _ => .fine⟩)
    ⟨zgfx_context_new, ⟨0, 0, suspendFrameAcks, []⟩⟩ List.length_replicate
    (fun m hm => Nat.le_add_right_of_le (henough m hm)) ⟨zgfx_context_new_keeps, rfl⟩
  have hsize : zgfx_context_new.HistoryBufferSize = 2500000 := rfl
  rw [hsize, h.texts, hlen, recvTexts_eq found _ h.length_lt fun group hgroup =>
    Nat.le_add_left_of_le (List.sublist_flatten_of_mem hgroup).length_le] at hplain
  rw [hlen]
  rcases hrun : onDataReceivedAll .tiragfx (enough + pdus.flatten.length)
      ((List.replicate pdus.length ⟨found, true, fun _ => .fine⟩).zip (messages.map Message.bytes))
      ⟨zgfx_context_new, ⟨0, 0, suspendFrameAcks, []⟩⟩ with e | ⟨errors, ch⟩
  · rw [hrun] at hplain
    exact nomatch hplain
  · rw [hrun] at hplain
    obtain ⟨herrors, hgfx⟩ := Prod.mk.inj (Except.ok.inj hplain)
    dsimp only at herrors hgfx
    have hcounted := ServerPdu.counted_pdus suspendFrameAcks pdus.flatten fun pdu hpdu => by
      obtain ⟨group, hgroup, hmem⟩ := List.mem_flatten.mp hpdu
      have hsub := (List.sublist_flatten_of_mem (List.mem_map_of_mem (f := ServerPdu.bytes) hmem))
      rw [← List.flatMap_def] at hsub
      exact Nat.lt_of_le_of_lt hsub.length_le (h.length_lt group hgroup)
    refine ⟨enough + pdus.flatten.length, ch, by rw [hrun, herrors], ?_, ?_⟩
    · rw [hgfx]
      exact hcounted.total.trans (u32_of_lt hfew)
    · rw [hgfx]
      refine (hcounted.acknowledged hfew).trans ?_
      rw [ServerPdu.afterFrames_suspend]

/-! ### Two compressed messages -/

def startOfFrame : ServerPdu :=
  ⟨0x000B, 0, [1, 2, 3, 4, 7, 0, 0, 0], by decide, by decide, by decide⟩

def endOfFrame (frameId : Nat) : ServerPdu :=
  ⟨0x000C, 0, le32 frameId, by decide, by decide, fun _ => Nat.le_refl 4⟩

/-- The start and the end of frame 7. -/
def firstText : Bytes := startOfFrame.bytes ++ (endOfFrame 7).bytes

def firstMessage : Message where
  tokens := firstText.map .literal ++ []
  bytes := UInt8.ofNat ZGFX_SEGMENTED_SINGLE :: 0x24 :: ([5, 128, 0, 0, 0, 128, 0, 0, 0, 0, 128, 128,
    96, 64, 56, 0, 0, 0, 6, 0, 0, 0, 0, 96, 0, 0, 0, 3, 128, 0, 0, 0] ++ [4])
  spells := .single (@SpellsSegment.packed _ _ _ (List.replicate 4 false) _ (by decide)
    (.literals firstText (.nil _)) (by decide +kernel) (by decide) (by decide))
  text_lt := by decide
  length_lt := by decide

/-- A copy of the first text up to the id, the id 8, and a copy of the end of that frame. -/
def secondMessage : Message where
  tokens := .copy 28 24 :: ((le32 8).map .literal ++ [.copy 12 12])
  bytes := UInt8.ofNat ZGFX_SEGMENTED_SINGLE :: 0x24 ::
    ([143, 58, 1, 0, 0, 0, 2, 44, 208] ++ [2])
  spells := .single (@SpellsSegment.packed _ _ _ (List.replicate 2 false) _ (by decide)
    (.near (by decide) (by decide) (by decide) (by decide) (.literals (le32 8)
      (.near (by decide) (by decide) (by decide) (by decide) (.nil _))))
    (by decide +kernel) (by decide) (by decide))
  text_lt := by decide
  length_lt := by decide

def bothTexts : List (List ServerPdu) :=
  [[startOfFrame, endOfFrame 7], [startOfFrame, endOfFrame 8, endOfFrame 8]]

theorem expandEach_both (history : Bytes) :
    expandEach history ([firstMessage, secondMessage].map Message.tokens) =
      bothTexts.map fun group => group.flatMap ServerPdu.bytes := by
  have hfirst : expandAll history firstMessage.tokens = history ++ firstText := by
    have htokens : firstMessage.tokens = firstText.map .literal := List.append_nil _
    rw [htokens]
    exact expandAll_literals firstText
  have hwithin : ∀ t ∈ secondMessage.tokens, t.Within 28 := by decide
  have hsecond : expandAll (history ++ firstText) secondMessage.tokens =
      history ++ expandAll firstText secondMessage.tokens :=
    expandAll_append_left history hwithin (by decide)
  have htext : expandAll firstText secondMessage.tokens = firstText ++
      [startOfFrame, endOfFrame 8, endOfFrame 8].flatMap ServerPdu.bytes := by decide +kernel
  rw [List.map_cons, List.map_singleton, expandEach, expandEach, expandEach, hfirst, List.drop_left,
    hsecond, htext, ← List.append_assoc, List.drop_left]
  rfl

theorem session_acknowledges_compressed :
    ∃ fuel ch, onDataReceivedAll .tiragfx fuel
        ((List.replicate 2 ⟨fun _ => 0, true, fun _ => .fine⟩).zip
          [firstMessage.bytes, secondMessage.bytes])
        ⟨zgfx_context_new, ⟨0, 0, false, []⟩⟩ = .ok ([CHANNEL_RC_OK, CHANNEL_RC_OK], ch) ∧
      ch.gfx.TotalDecodedFrames = 3 ∧
      ch.gfx.written = TiraGfx.acknowledgements false [7, 8, 8] :=
  session_acknowledges false (fun _ => 0) [firstMessage, secondMessage] bothTexts
    ⟨expandEach_both _, by decide⟩ (by decide)

end TiraRdp.GfxSession
