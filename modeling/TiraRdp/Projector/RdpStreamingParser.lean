import TiraRdp.Lib.Framing
import TiraRdp.Lib.Loop
import TiraRdp.Utility.DataBuffer

/-!
# `RdpStreamingParser`: chunk independence and the framing round trip

Model of `RdpStreamingParser` (`projector/RdpStreamingParser.cpp`, `RdpStreamingDef.h`), the
length-prefixed reader behind every channel of the projector. A frame is `LE32(|p|) ++ p`
(`rdpFraming`).

* `m_pHeader` and `m_pMessage` alias the block of `m_HeaderBuffer`. `payloadLength` reads the first
  four bytes of that block, which `Clear` leaves in place; the pointer `m_ObjectBody` lies behind
  them in the block and is kept apart here, as an offset into the block of `m_BodyBuffer`.
* `Process` is the `while (len > 0)` loop, run for at most one iteration per byte. `none` would be
  a loop that goes on longer.
* A callback is recorded as a `RdpStreamingMessage`: the announced length and the bytes found at
  `m_ObjectBody`, as `IRdpSource::Start`'s callback copies them out (`IRdpSource.cpp:22-24`).

Results: one iteration consumes input and either extends the incomplete tail or emits the payload
it completes (`iteration_spec`); `Process` and a sequence of calls deliver what their bytes complete
(`Delivers`), so what was delivered and what is held are the unique splitting of the bytes consumed
(`feed_new`, `feed_of_splits`).
-/

namespace TiraRdp

open Lib Lib.Framing

/-- The framing of the streaming channels: a little-endian 32-bit length. -/
def rdpFraming : Codec UInt8 where
  size := 4
  bound := 2 ^ 32
  enc := le32
  dec := ofLe
  enc_length := le32_length
  dec_enc := fun _ => ofLe_le32
  enc_dec := fun _ => le32_ofLe
  dec_lt := fun _ => ofLe_lt

/-- `sizeof(RdpStreamingMsgHeader)`. -/
def g_MsgHeaderSize : Nat := 4

/-- `sizeof(RdpStreamingMessage)`: the header and a pointer, on Win32. -/
def g_MessageSize : Nat := 8

/-- What a callback is given: the header and the bytes the body pointer leads to. -/
structure RdpStreamingMessage where
  m_PayloadLength : Nat
  m_ObjectBody : Bytes
  deriving Repr, DecidableEq

/-- The message that carries the payload `p`. -/
def RdpStreamingMessage.ofPayload (p : Bytes) : RdpStreamingMessage := ⟨p.length, p⟩

inductive ParseStage where
  | Header
  | Body
  deriving Repr, DecidableEq

structure RdpStreamingParser where
  m_BodyBuffer : DataBuffer
  m_HeaderBuffer : DataBuffer
  m_ObjectBody : Option Nat
  m_Stage : ParseStage

namespace RdpStreamingParser

variable (fresh : Nat → Mem UInt8)

/-- The constructor (`RdpStreamingParser.cpp:4-12`). -/
def new : Except Fault RdpStreamingParser :=
  match DataBuffer.new.SetBufferSizeLowerBound fresh g_MessageSize with
  | .error e => .error e
  | .ok hb =>
    match hb.GetPtrForWriting 0 with
    | .error e => .error e
    | .ok _ => .ok ⟨DataBuffer.new, hb, none, .Header⟩

/-- `m_pHeader->m_PayloadLength`. -/
def payloadLength (s : RdpStreamingParser) : Nat :=
  ofLe (s.m_HeaderBuffer.m_Buffer.read 0 g_MsgHeaderSize)

/-- The `m_PayloadLength` bytes a callback finds at `m_ObjectBody`. -/
def readBody (s : RdpStreamingParser) : Except Fault Bytes :=
  if s.payloadLength = 0 then .ok []
  else
    match s.m_ObjectBody with
    | none => .error .wildPointer
    | some off =>
      if off + s.payloadLength ≤ s.m_BodyBuffer.m_BufferSize then
        .ok (s.m_BodyBuffer.m_Buffer.read off s.payloadLength)
      else .error .outOfBounds

/-- Back to the header state with both buffers cleared. -/
def backToHeader (s : RdpStreamingParser) : RdpStreamingParser :=
  { s with
    m_Stage := .Header
    m_HeaderBuffer := s.m_HeaderBuffer.Clear
    m_BodyBuffer := s.m_BodyBuffer.Clear }

/-- `OnMessageParsed` (`RdpStreamingParser.cpp:56-62`). -/
def OnMessageParsed (s : RdpStreamingParser) :
    Except Fault (RdpStreamingParser × List RdpStreamingMessage) :=
  match s.backToHeader.readBody with
  | .error e => .error e
  | .ok body => .ok (s.backToHeader, [⟨s.backToHeader.payloadLength, body⟩])

@[simp] theorem payloadLength_backToHeader (s : RdpStreamingParser) :
    s.backToHeader.payloadLength = s.payloadLength := rfl

/-- `case ParseStage::Header` (`:19-39`): the parser, what is left of the input, the callbacks. -/
def headerCase (s : RdpStreamingParser) (pData : Bytes) :
    Except Fault (RdpStreamingParser × Bytes × List RdpStreamingMessage) :=
  let headerBytesNeed := subU32 g_MsgHeaderSize s.m_HeaderBuffer.GetDataLength
  let headerBytesToProcess := min pData.length headerBytesNeed
  match s.m_HeaderBuffer.AppendFrom pData headerBytesToProcess with
  | .error e => .error e
  | .ok hb =>
    let s := { s with m_HeaderBuffer := hb }
    let pData := pData.drop headerBytesToProcess
    if g_MsgHeaderSize = s.m_HeaderBuffer.GetDataLength then
      if s.payloadLength = 0 then
        match s.OnMessageParsed with
        | .error e => .error e
        | .ok (s, out) => .ok (s, pData, out)
      else
        match s.m_BodyBuffer.SetBufferSizeLowerBound fresh s.payloadLength with
        | .error e => .error e
        | .ok bb =>
          let bb := bb.Clear
          match bb.GetPtrForWriting 0 with
          | .error e => .error e
          | .ok off =>
            .ok ({ s with m_Stage := .Body, m_BodyBuffer := bb, m_ObjectBody := some off }, pData, [])
    else .ok (s, pData, [])

/-- `case ParseStage::Body` (`:40-52`). -/
def bodyCase (s : RdpStreamingParser) (pData : Bytes) :
    Except Fault (RdpStreamingParser × Bytes × List RdpStreamingMessage) :=
  let bodyBytesNeed := subU32 s.payloadLength s.m_BodyBuffer.GetDataLength
  let bodyBytesToProcess := min pData.length bodyBytesNeed
  match s.m_BodyBuffer.AppendFrom pData bodyBytesToProcess with
  | .error e => .error e
  | .ok bb =>
    let s := { s with m_BodyBuffer := bb }
    let pData := pData.drop bodyBytesToProcess
    if s.payloadLength = s.m_BodyBuffer.GetDataLength then
      match s.OnMessageParsed with
      | .error e => .error e
      | .ok (s, out) => .ok (s, pData, out)
    else .ok (s, pData, [])

/-- One iteration of the `while` loop of `Process`. -/
def iteration (s : RdpStreamingParser) (pData : Bytes) :
    Except Fault (RdpStreamingParser × Bytes × List RdpStreamingMessage) :=
  match s.m_Stage with
  | .Header => headerCase fresh s pData
  | .Body => bodyCase s pData

/-- The loop's state: the parser, the input left, the callbacks made so far. -/
abbrev LoopState := RdpStreamingParser × Bytes × List RdpStreamingMessage

/-- `len > 0`. -/
def loopCond (st : LoopState) : Bool := 0 < st.2.1.length

/-- The body of the loop, with the callbacks collected. -/
def loopBody (st : LoopState) : Except Fault LoopState :=
  match iteration fresh st.1 st.2.1 with
  | .error e => .error e
  | .ok (s, pData, out) => .ok (s, pData, st.2.2 ++ out)

/-- `Process` (`:13-55`): the parser after the call and the callbacks it made. -/
def Process (s : RdpStreamingParser) (pData : Bytes) : Option (Except Fault LoopState) :=
  Loop.run loopCond (loopBody fresh) pData.length (s, pData, [])

/-- A call of `Process` on each buffer in turn: the parser and all callbacks. -/
def feed (s : RdpStreamingParser) :
    List Bytes → Option (Except Fault (RdpStreamingParser × List RdpStreamingMessage))
  | [] => some (.ok (s, []))
  | c :: cs =>
    match Process fresh s c with
    | none => none
    | some (.error e) => some (.error e)
    | some (.ok (s, _, out)) =>
      match feed s cs with
      | none => none
      | some (.error e) => some (.error e)
      | some (.ok (s, outs)) => some (.ok (s, out ++ outs))

/-! ## The state between calls -/

variable {fresh}

/-- The parser holds exactly the incomplete tail `t`: short of a header in the header state, short
of the announced payload in the body state, with a body buffer that can take all of it. -/
structure Holds (s : RdpStreamingParser) (t : Bytes) : Prop where
  tail : t = s.m_HeaderBuffer.data ++ s.m_BodyBuffer.data
  inHeader : s.m_Stage = .Header →
    s.m_HeaderBuffer.m_DataLength < g_MsgHeaderSize ∧ s.m_BodyBuffer.m_DataLength = 0
  inBody : s.m_Stage = .Body →
    s.m_HeaderBuffer.m_DataLength = g_MsgHeaderSize ∧
      s.m_BodyBuffer.m_DataLength < s.payloadLength ∧
      s.payloadLength ≤ s.m_BodyBuffer.m_BufferSize ∧ s.m_ObjectBody = some 0
  header_size : s.m_HeaderBuffer.m_BufferSize = g_MessageSize
  body_size : s.m_BodyBuffer.m_BufferSize < 2 ^ 32
  body_own : s.m_BodyBuffer.m_IsOwnResource = true

/-- With a whole header held, `m_pHeader` reads the length it spells. -/
theorem payloadLength_eq {s : RdpStreamingParser}
    (h : s.m_HeaderBuffer.m_DataLength = g_MsgHeaderSize) :
    s.payloadLength = ofLe s.m_HeaderBuffer.data := by
  unfold payloadLength DataBuffer.data
  rw [h]

theorem le32_payloadLength {s : RdpStreamingParser}
    (h : s.m_HeaderBuffer.m_DataLength = g_MsgHeaderSize) :
    le32 s.payloadLength = s.m_HeaderBuffer.data := by
  rw [payloadLength_eq h]
  exact le32_ofLe (by rw [DataBuffer.data_length, h]; rfl)

theorem payloadLength_lt (s : RdpStreamingParser) : s.payloadLength < 2 ^ 32 :=
  ofLe_lt (Mem.read_length _ _ _)

/-- What the parser holds is incomplete. -/
theorem Holds.incomplete {s : RdpStreamingParser} {t : Bytes} (h : Holds s t) :
    Incomplete rdpFraming t := by
  intro hsz
  have hlen : t.length = s.m_HeaderBuffer.m_DataLength + s.m_BodyBuffer.m_DataLength := by
    rw [h.tail, List.length_append, DataBuffer.data_length, DataBuffer.data_length]
  cases hst : s.m_Stage with
  | Header =>
    obtain ⟨h1, h2⟩ := h.inHeader hst
    have : rdpFraming.size = g_MsgHeaderSize := rfl
    omega
  | Body =>
    obtain ⟨h1, h2, -, -⟩ := h.inBody hst
    have htake : t.take rdpFraming.size = s.m_HeaderBuffer.data := by
      rw [h.tail, List.take_left' (by rw [DataBuffer.data_length, h1]; rfl)]
    rw [htake, hlen, h1]
    show g_MsgHeaderSize + _ < g_MsgHeaderSize + ofLe s.m_HeaderBuffer.data
    rw [← payloadLength_eq h1]
    omega

/-- The constructed parser holds nothing. -/
theorem new_holds (fresh : Nat → Mem UInt8) : ∃ s, new fresh = .ok s ∧ Holds s [] := by
  refine ⟨_, rfl, rfl, fun _ => ⟨Nat.zero_lt_succ 3, rfl⟩, fun h => ?_, rfl, ?_, rfl⟩
  · exact absurd h (by simp)
  · show (0 : Nat) < 2 ^ 32
    decide

/-! ## One iteration -/

/-- What an iteration does: it consumes `d`, and either the tail grows by `d` or `d` completes the
frame of a payload, which the callback gets. -/
def Advances (t pData : Bytes) (r : Except Fault LoopState) : Prop :=
  ∃ s d rest out, r = .ok (s, rest, out) ∧ pData = d ++ rest ∧ d ≠ [] ∧
    ((out = [] ∧ Holds s (t ++ d)) ∨
      ∃ p : Bytes, p.length < 2 ^ 32 ∧ out = [.ofPayload p] ∧ t ++ d = frame rdpFraming p ∧
        Holds s [])

theorem take_ne_nil {l : Bytes} {k : Nat} (hl : l ≠ []) (hk : 0 < k) : l.take k ≠ [] := by
  intro h
  have := congrArg List.length h
  have := List.length_pos_of_ne_nil hl
  simp only [List.length_take, List.length_nil] at *
  omega

/-- The state both branches of `OnMessageParsed` are entered in gives back an empty parser. -/
theorem OnMessageParsed_spec {s : RdpStreamingParser} {body : Bytes}
    (hb : s.m_BodyBuffer.data = body) (hlen : s.m_BodyBuffer.m_DataLength = s.payloadLength)
    (hptr : s.payloadLength ≠ 0 → s.m_ObjectBody = some 0)
    (hfit : s.payloadLength ≤ s.m_BodyBuffer.m_BufferSize)
    (hh : s.m_HeaderBuffer.m_BufferSize = g_MessageSize)
    (hsz : s.m_BodyBuffer.m_BufferSize < 2 ^ 32) (hown : s.m_BodyBuffer.m_IsOwnResource = true) :
    ∃ s', s.OnMessageParsed = .ok (s', [.ofPayload body]) ∧ Holds s' [] := by
  have hbl : body.length = s.payloadLength := by rw [← hb, DataBuffer.data_length, hlen]
  have hread : s.backToHeader.readBody = .ok body := by
    unfold readBody
    rw [payloadLength_backToHeader]
    by_cases h0 : s.payloadLength = 0
    · rw [if_pos h0, List.eq_nil_of_length_eq_zero (hbl.trans h0)]
    · have hob : s.backToHeader.m_ObjectBody = some 0 := hptr h0
      have hsize : 0 + s.payloadLength ≤ s.backToHeader.m_BodyBuffer.m_BufferSize := by
        rw [Nat.zero_add]
        exact hfit
      rw [if_neg h0, hob]
      simp only
      rw [if_pos hsize, ← hb, DataBuffer.data, hlen]
      rfl
  refine ⟨s.backToHeader, ?_, rfl, fun _ => ⟨Nat.zero_lt_succ 3, rfl⟩, fun h => ?_, hh, hsz, hown⟩
  · unfold OnMessageParsed
    rw [hread, payloadLength_backToHeader, ← hbl]
    rfl
  · exact absurd h (by simp [backToHeader])

theorem headerCase_advances {s : RdpStreamingParser} {t pData : Bytes} (h : Holds s t)
    (hst : s.m_Stage = .Header) (hne : pData ≠ []) :
    Advances t pData (headerCase fresh s pData) := by
  obtain ⟨hlt, hb0⟩ := h.inHeader hst
  have hbody : s.m_BodyBuffer.data = [] :=
    List.eq_nil_of_length_eq_zero (by rw [DataBuffer.data_length, hb0])
  have ht : t = s.m_HeaderBuffer.data := by rw [h.tail, hbody, List.append_nil]
  have hneed : subU32 g_MsgHeaderSize s.m_HeaderBuffer.GetDataLength =
      g_MsgHeaderSize - s.m_HeaderBuffer.m_DataLength :=
    subU32_of_le (by decide) (Nat.le_of_lt hlt)
  have hpos := List.length_pos_of_ne_nil hne
  obtain ⟨k, hk⟩ : ∃ k, k = min pData.length (g_MsgHeaderSize - s.m_HeaderBuffer.m_DataLength) :=
    ⟨_, rfl⟩
  have hk0 : 0 < k := by omega
  have h4 : g_MsgHeaderSize = 4 := rfl
  have h8 : g_MessageSize = 8 := rfl
  have hsize : s.m_HeaderBuffer.m_BufferSize < 2 ^ 32 := by rw [h.header_size]; decide
  have hroom : s.m_HeaderBuffer.m_DataLength + k ≤ s.m_HeaderBuffer.m_BufferSize := by
    rw [h.header_size]; omega
  have hkle : k ≤ pData.length := by omega
  obtain ⟨hb, happ, hdata, hdl, hbs, -⟩ := DataBuffer.AppendFrom_spec hsize hkle hroom
  have htd : t ++ pData.take k = hb.data := by rw [ht, hdata]
  have hd : pData.take k ≠ [] := take_ne_nil hne hk0
  unfold headerCase
  simp only [hneed, ← hk, happ]
  let s1 : RdpStreamingParser := { s with m_HeaderBuffer := hb }
  by_cases hfull : g_MsgHeaderSize = hb.GetDataLength
  · have hfull' : s1.m_HeaderBuffer.m_DataLength = g_MsgHeaderSize := hfull.symm
    rw [if_pos hfull]
    by_cases h0 : s1.payloadLength = 0
    · -- an empty payload: the callback comes straight from the header
      obtain ⟨s', hm, hs'⟩ := OnMessageParsed_spec (s := s1) hbody
        (hb0.trans h0.symm) (fun hc => absurd h0 hc) (h0 ▸ Nat.zero_le _)
        (hbs.trans h.header_size) h.body_size h.body_own
      refine ⟨s', pData.take k, pData.drop k, [.ofPayload []], ?_,
        (List.take_append_drop k pData).symm, hd, Or.inr ⟨[], by decide, rfl, ?_, hs'⟩⟩
      · rw [if_pos h0, hm]
      · rw [htd, ← le32_payloadLength hfull', h0]
        rfl
    · obtain ⟨bb, hset, hbsz, -, hbown⟩ :=
        DataBuffer.SetBufferSizeLowerBound_spec fresh h.body_own s1.payloadLength
      have hplt : s1.payloadLength < 2 ^ 32 := payloadLength_lt s1
      have hbmax : s1.payloadLength ≤ bb.m_BufferSize := by rw [hbsz]; exact Nat.le_max_right _ _
      have hptr : bb.Clear.GetPtrForWriting 0 = .ok 0 := by
        rw [DataBuffer.GetPtrForWriting, if_pos]
        rw [DataBuffer.Clear_m_BufferSize]
        omega
      rw [if_neg h0, hset]
      simp only [hptr]
      refine ⟨_, pData.take k, pData.drop k, [], rfl, (List.take_append_drop k pData).symm, hd,
        Or.inl ⟨rfl, ?_, fun hc => ?_, fun _ => ⟨hfull', ?_, hbmax, rfl⟩,
          hbs.trans h.header_size, ?_, hbown⟩⟩
      · rw [htd, DataBuffer.data_Clear, List.append_nil]
      · exact absurd hc (by simp)
      · exact Nat.pos_of_ne_zero h0
      · have := h.body_size
        rw [DataBuffer.Clear_m_BufferSize, hbsz]
        omega
  · rw [if_neg hfull]
    refine ⟨s1, pData.take k, pData.drop k, [], rfl, (List.take_append_drop k pData).symm, hd,
      Or.inl ⟨rfl, ?_, fun _ => ⟨?_, hb0⟩, fun hc => ?_, hbs.trans h.header_size, h.body_size,
        h.body_own⟩⟩
    · show _ = hb.data ++ s.m_BodyBuffer.data
      rw [htd, hbody, List.append_nil]
    · have hn : g_MsgHeaderSize ≠ hb.m_DataLength := hfull
      show hb.m_DataLength < g_MsgHeaderSize
      omega
    · exact absurd (hst.symm.trans hc) (by simp)

theorem bodyCase_advances {s : RdpStreamingParser} {t pData : Bytes} (h : Holds s t)
    (hst : s.m_Stage = .Body) (hne : pData ≠ []) : Advances t pData (bodyCase s pData) := by
  obtain ⟨hh4, hlt, hfit, hptr⟩ := h.inBody hst
  have hplt := payloadLength_lt s
  have hneed : subU32 s.payloadLength s.m_BodyBuffer.GetDataLength =
      s.payloadLength - s.m_BodyBuffer.m_DataLength :=
    subU32_of_le hplt (Nat.le_of_lt hlt)
  have hpos := List.length_pos_of_ne_nil hne
  obtain ⟨k, hk⟩ : ∃ k, k = min pData.length (s.payloadLength - s.m_BodyBuffer.m_DataLength) :=
    ⟨_, rfl⟩
  have hk0 : 0 < k := by omega
  have hkle : k ≤ pData.length := by omega
  have hroom : s.m_BodyBuffer.m_DataLength + k ≤ s.m_BodyBuffer.m_BufferSize := by omega
  obtain ⟨bb, happ, hdata, hdl, hbs, hbown⟩ := DataBuffer.AppendFrom_spec h.body_size hkle hroom
  have htd : t ++ pData.take k = s.m_HeaderBuffer.data ++ bb.data := by
    rw [h.tail, hdata, List.append_assoc]
  have hd : pData.take k ≠ [] := take_ne_nil hne hk0
  unfold bodyCase
  simp only [hneed, ← hk, happ]
  let s1 : RdpStreamingParser := { s with m_BodyBuffer := bb }
  by_cases hfull : s1.payloadLength = bb.GetDataLength
  · obtain ⟨s', hm, hs'⟩ := OnMessageParsed_spec (s := s1) rfl hfull.symm
      (fun _ => hptr) (by show s.payloadLength ≤ bb.m_BufferSize; rw [hbs]; exact hfit)
      h.header_size (by show bb.m_BufferSize < _; rw [hbs]; exact h.body_size)
      (hbown.trans h.body_own)
    rw [if_pos hfull, hm]
    refine ⟨s', pData.take k, pData.drop k, [.ofPayload bb.data], rfl,
      (List.take_append_drop k pData).symm, hd, Or.inr ⟨bb.data, ?_, rfl, ?_, hs'⟩⟩
    · rw [DataBuffer.data_length, ← DataBuffer.GetDataLength, ← hfull]
      exact hplt
    · have hl : bb.data.length = s.payloadLength := by rw [DataBuffer.data_length]; exact hfull.symm
      rw [htd, ← le32_payloadLength hh4, ← hl]
      rfl
  · rw [if_neg hfull]
    refine ⟨s1, pData.take k, pData.drop k, [], rfl, (List.take_append_drop k pData).symm, hd,
      Or.inl ⟨rfl, htd, fun hc => ?_, fun _ => ⟨hh4, ?_, ?_, hptr⟩, h.header_size, ?_,
        hbown.trans h.body_own⟩⟩
    · exact absurd (hst.symm.trans hc) (by simp)
    · have hn : s.payloadLength ≠ bb.m_DataLength := hfull
      show bb.m_DataLength < s.payloadLength
      omega
    · show s.payloadLength ≤ bb.m_BufferSize
      rw [hbs]
      exact hfit
    · show bb.m_BufferSize < _
      rw [hbs]
      exact h.body_size

variable (fresh)

/-- **One iteration** neither throws nor leaves a block, consumes input, and keeps the held tail
exact. -/
theorem iteration_spec {s : RdpStreamingParser} {t pData : Bytes} (h : Holds s t)
    (hne : pData ≠ []) : Advances t pData (iteration fresh s pData) := by
  unfold iteration
  cases hst : s.m_Stage with
  | Header => exact headerCase_advances h hst hne
  | Body => exact bodyCase_advances h hst hne

/-! ## Calls of `Process` -/

/-- From a parser holding `t`, the input `c` brings the callbacks `out` and the parser `s`: for any
splitting that ends in `t`, what follows is the splitting of the longer string. -/
def Delivers (t c : Bytes) (s : RdpStreamingParser) (out : List RdpStreamingMessage) : Prop :=
  ∃ ps t', out = ps.map .ofPayload ∧ Holds s t' ∧
    ∀ hist qs, Splits rdpFraming hist qs t → Splits rdpFraming (hist ++ c) (qs ++ ps) t'

theorem Delivers.nil {s : RdpStreamingParser} {t : Bytes} (h : Holds s t) : Delivers t [] s [] :=
  ⟨[], t, rfl, h, fun hist qs hs => by simpa using hs⟩

/-- A consumed piece `d` of the input extends what was delivered before it. -/
theorem Delivers.advance {s' : RdpStreamingParser} {t t' c d : Bytes}
    {out out' : List RdpStreamingMessage} {ps : List Bytes} (hps : out = ps.map .ofPayload)
    (hsp : ∀ hist qs, Splits rdpFraming hist qs t → Splits rdpFraming (hist ++ c) (qs ++ ps) t')
    (hadv : (out' = [] ∧ Holds s' (t' ++ d)) ∨
      ∃ p : Bytes, p.length < 2 ^ 32 ∧ out' = [.ofPayload p] ∧ t' ++ d = frame rdpFraming p ∧
        Holds s' []) :
    Delivers t (c ++ d) s' (out ++ out') := by
  rcases hadv with ⟨rfl, hs'⟩ | ⟨p, hp, rfl, hf, hs'⟩
  · refine ⟨ps, t' ++ d, by simpa using hps, hs', ?_⟩
    intro hist qs h
    rw [← List.append_assoc]
    exact (hsp hist qs h).more hs'.incomplete
  · refine ⟨ps ++ [p], [], by simp [hps], hs', ?_⟩
    intro hist qs h
    rw [← List.append_assoc, ← List.append_assoc]
    exact (hsp hist qs h).emit (by decide) hp hf

/-- **A call of `Process` ends**, throws nothing, consumes its whole buffer and delivers what the
buffer completes. -/
theorem Process_spec {s : RdpStreamingParser} {t : Bytes} (h : Holds s t) (c : Bytes) :
    ∃ s' out, Process fresh s c = some (.ok (s', [], out)) ∧ Delivers t c s' out := by
  -- the invariant: what the loop has consumed so far has been delivered
  let Inv : LoopState → Prop := fun st => ∃ d, c = d ++ st.2.1 ∧ Delivers t d st.1 st.2.2
  have hbody : ∀ st, Inv st → loopCond st = true → ∃ st', loopBody fresh st = .ok st' ∧ Inv st' ∧
      st'.2.1.length < st.2.1.length := by
    rintro ⟨s1, rest, out⟩ ⟨d, hc, ps, t', hps, hs1, hsp⟩ hcond
    have hne : rest ≠ [] := List.ne_nil_of_length_pos (by simpa [loopCond] using hcond)
    obtain ⟨s2, d', rest', out', hit, hrest, hd', hadv⟩ := iteration_spec fresh hs1 hne
    refine ⟨(s2, rest', out ++ out'), by simp only [loopBody, hit], ⟨d ++ d', ?_, ?_⟩, ?_⟩
    · rw [List.append_assoc, ← hrest]
      exact hc
    · exact Delivers.advance hps hsp hadv
    · have := List.length_pos_of_ne_nil hd'
      simp only [hrest, List.length_append]
      omega
  obtain ⟨⟨s', rest, out⟩, hrun, ⟨d, hd, hdel⟩, hend⟩ :=
    Loop.run_total hbody c.length (s, c, []) ⟨[], rfl, Delivers.nil h⟩ (Nat.le_refl _)
  have hnil : rest = [] := List.eq_nil_of_length_eq_zero (by simpa [loopCond] using hend)
  subst hnil
  rw [List.append_nil] at hd
  subst hd
  exact ⟨s', out, hrun, hdel⟩

/-- A sequence of calls delivers what their buffers, put together, complete. -/
theorem feed_spec (chunks : List Bytes) {s : RdpStreamingParser} {t : Bytes} (h : Holds s t) :
    ∃ s' out, feed fresh s chunks = some (.ok (s', out)) ∧ Delivers t chunks.flatten s' out := by
  induction chunks generalizing s t with
  | nil => exact ⟨s, [], rfl, Delivers.nil h⟩
  | cons c cs ih =>
    obtain ⟨s1, out1, hp, ps, t1, rfl, h1, hsp⟩ := Process_spec fresh h c
    obtain ⟨s2, out2, hf, qs, t2, rfl, h2, hsq⟩ := ih h1
    refine ⟨s2, ps.map .ofPayload ++ qs.map .ofPayload, by simp only [feed, hp, hf], ps ++ qs, t2,
      by rw [List.map_append], h2, fun hist rs hs => ?_⟩
    rw [List.flatten_cons, ← List.append_assoc, ← List.append_assoc]
    exact hsq _ _ (hsp hist rs hs)

/-- From a new parser, what the calls delivered and what is held are the splitting of the bytes
consumed. -/
theorem feed_new {s₀ : RdpStreamingParser} (h₀ : Holds s₀ []) (chunks : List Bytes) :
    ∃ s ps t, feed fresh s₀ chunks = some (.ok (s, ps.map .ofPayload)) ∧ Holds s t ∧
      Splits rdpFraming chunks.flatten ps t := by
  obtain ⟨s, out, hf, ps, t, rfl, hs, hsp⟩ := feed_spec fresh chunks h₀
  exact ⟨s, ps, t, hf, hs, by simpa using hsp [] [] (Splits.nil (by decide))⟩

/-- The bytes of whole frames and an incomplete tail, however cut, bring exactly their payloads. -/
theorem feed_of_splits {s₀ : RdpStreamingParser} (h₀ : Holds s₀ []) {chunks : List Bytes}
    {ps : List Bytes} {t : Bytes} (h : Splits rdpFraming chunks.flatten ps t) :
    ∃ s, feed fresh s₀ chunks = some (.ok (s, ps.map .ofPayload)) ∧ Holds s t := by
  obtain ⟨s, qs, u, hf, hs, hq⟩ := feed_new fresh h₀ chunks
  obtain ⟨rfl, rfl⟩ := splits_unique hq h
  exact ⟨s, hf, hs⟩

/-- **The framing round trip.** The frames of `payloads` and a proper prefix `t` of one more, cut
into buffers in any way, bring exactly the callbacks for `payloads`, in order; every call returns
without a throw; and after the first `k` calls the parser holds exactly the incomplete tail of the
bytes of those calls. -/
theorem process_recovers_payloads (fresh : Nat → Mem UInt8) {payloads chunks : List Bytes}
    {t : Bytes} (hlen : ∀ p ∈ payloads, p.length < 2 ^ 32)
    (ht : ∃ q : Bytes, q.length < 2 ^ 32 ∧ t <+: frame rdpFraming q ∧ t ≠ frame rdpFraming q)
    (hcut : chunks.flatten = wire rdpFraming payloads ++ t) :
    ∃ s₀, new fresh = .ok s₀ ∧
      (∃ s, feed fresh s₀ chunks = some (.ok (s, payloads.map .ofPayload)) ∧ Holds s t) ∧
      ∀ k, ∃ s n tail, feed fresh s₀ (chunks.take k) =
          some (.ok (s, (payloads.take n).map .ofPayload)) ∧
        (chunks.take k).flatten = wire rdpFraming (payloads.take n) ++ tail ∧
        Incomplete rdpFraming tail ∧ Holds s tail := by
  obtain ⟨q, hq, hpre, hne⟩ := ht
  obtain ⟨s₀, hnew, h₀⟩ := new_holds fresh
  have hsplit : Splits rdpFraming chunks.flatten payloads t :=
    ⟨hcut, hlen, incomplete_of_prefix hq hpre hne⟩
  refine ⟨s₀, hnew, feed_of_splits fresh h₀ hsplit, ?_⟩
  intro k
  obtain ⟨s, ps, tail, hf, hs, hps⟩ := feed_new fresh h₀ (chunks.take k)
  -- the remaining calls only add to what the first `k` delivered
  obtain ⟨s', out', -, qs, t', -, -, hrest⟩ :=
    feed_spec fresh (chunks.drop k) hs
  have hall := hrest _ _ hps
  rw [← List.flatten_append, List.take_append_drop] at hall
  obtain ⟨hpay, -⟩ := splits_unique hsplit hall
  have htake : payloads.take ps.length = ps := by rw [hpay, List.take_left' rfl]
  exact ⟨s, ps.length, tail, by rw [htake]; exact hf, by rw [htake]; exact hps.eq, hps.tail, hs⟩

/-- Two frames and a header cut in the middle of each header. -/
theorem process_recovers_payloads_cut :
    let payloads : List Bytes := [[7, 8], []]
    let chunks : List Bytes := [[2, 0], [0, 0, 7], [8, 0, 0, 0, 0, 5]]
    (∀ p ∈ payloads, p.length < 2 ^ 32) ∧
      (∃ q : Bytes, q.length < 2 ^ 32 ∧ [5] <+: frame rdpFraming q ∧ [5] ≠ frame rdpFraming q) ∧
      chunks.flatten = wire rdpFraming payloads ++ [5] ∧
      ∃ s₀, new (fun _ _ => 0xCD) = .ok s₀ ∧
        ∃ s, feed (fun _ _ => 0xCD) s₀ chunks = some (.ok (s, payloads.map .ofPayload)) := by
  have h1 : ∀ p ∈ ([[7, 8], []] : List Bytes), p.length < 2 ^ 32 := by simp
  have h2 : ∃ q : Bytes, q.length < 2 ^ 32 ∧ [5] <+: frame rdpFraming q ∧
      [5] ≠ frame rdpFraming q := ⟨[1, 2, 3, 4, 5], by decide, ⟨_, rfl⟩, by decide⟩
  have h3 : ([[2, 0], [0, 0, 7], [8, 0, 0, 0, 0, 5]] : List Bytes).flatten =
      wire rdpFraming [[7, 8], []] ++ [5] := rfl
  obtain ⟨s₀, hnew, ⟨s, hf, -⟩, -⟩ := process_recovers_payloads (fun _ _ => 0xCD) h1 h2 h3
  exact ⟨h1, h2, h3, s₀, hnew, s, hf⟩

end RdpStreamingParser

end TiraRdp
