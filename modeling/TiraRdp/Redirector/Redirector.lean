import TiraRdp.Projector.RdpStreamingParser
import Mathlib.Data.List.Forall2
import TiraRdp.Utility.Socket

/-!
# The redirector's senders

Model of the three data callbacks of `Redirector::Start`
(`redirector-client/Redirector.cpp:173-196`) and of `ScreenDataChannel::Send`
(`ScreenDataChannel.cpp:53-57`): the four bytes of the length, then the data, each with one call of
`Socket::Send` whose count is discarded.

A channel is followed over a sequence of blocks (`sendBlocks`); every call of `send()` meets an
environment of its own. `requests` are the lengths the calls ask for, as the `int` parameter of
`Socket::Send` reads them.

Results: on a fresh channel the bytes on the wire are the pieces taken, call by call
(`sendBlocks_takes`), never more than the frames (`takenBytes_length_le`), and the frames exactly
when every call takes all it was given (`framed_iff_no_short_send`).
-/

namespace TiraRdp

open Lib Lib.Framing

/-- The three streaming channels the redirector sends on. -/
inductive Channel where
  | screen
  | dr
  | audio
  deriving Repr, DecidableEq

/-- The sockets the data callbacks send on; unset until the channel is set up. -/
structure Redirector where
  _projectorScreenSocket : Option Socket
  _drSocket : Option Socket
  _audioplaybackSocket : Option Socket
  deriving Repr, DecidableEq

/-- `Send(&size, 4); Send(data, size);`, both counts discarded. -/
def Socket.sendSized (s : Socket) (env : SocketEnv × SocketEnv) (data : Bytes) :
    Except Exn Unit × Socket :=
  match s.Send env.1 (le32 data.length) with
  | (.error e, s) => (.error e, s)
  | (.ok _, s) =>
    match s.Send env.2 data with
    | (.error e, s) => (.error e, s)
    | (.ok _, s) => (.ok (), s)

/-- `ScreenDataChannel::Send`. -/
def ScreenDataChannel.Send (m_socket : Socket) (env : SocketEnv × SocketEnv) (data : Bytes) :
    Except Exn Unit × Socket :=
  m_socket.sendSized env data

namespace Redirector

/-- A data callback: nothing happens on a channel that is not set up. -/
def onData (socket : Option Socket) (env : SocketEnv × SocketEnv) (data : Bytes) :
    Except Exn Unit × Option Socket :=
  match socket with
  | none => (.ok (), none)
  | some s => ((s.sendSized env data).1, some (s.sendSized env data).2)

/-- `ScreenDataReceivedEvent` (`:173-180`). -/
def ScreenDataReceivedEvent (r : Redirector) (env : SocketEnv × SocketEnv) (data : Bytes) :
    Except Exn Unit × Redirector :=
  ((onData r._projectorScreenSocket env data).1,
    { r with _projectorScreenSocket := (onData r._projectorScreenSocket env data).2 })

/-- `DRDataReceivedEvent` (`:181-188`). -/
def DRDataReceivedEvent (r : Redirector) (env : SocketEnv × SocketEnv) (data : Bytes) :
    Except Exn Unit × Redirector :=
  ((onData r._drSocket env data).1, { r with _drSocket := (onData r._drSocket env data).2 })

/-- `AudioDataReceivedEvent` (`:189-196`). -/
def AudioDataReceivedEvent (r : Redirector) (env : SocketEnv × SocketEnv) (data : Bytes) :
    Except Exn Unit × Redirector :=
  ((onData r._audioplaybackSocket env data).1,
    { r with _audioplaybackSocket := (onData r._audioplaybackSocket env data).2 })

/-- The callback of a channel. -/
def DataReceivedEvent (r : Redirector) : Channel → SocketEnv × SocketEnv → Bytes →
    Except Exn Unit × Redirector
  | .screen => r.ScreenDataReceivedEvent
  | .dr => r.DRDataReceivedEvent
  | .audio => r.AudioDataReceivedEvent

/-- The socket of a channel. -/
def socket (r : Redirector) : Channel → Option Socket
  | .screen => r._projectorScreenSocket
  | .dr => r._drSocket
  | .audio => r._audioplaybackSocket

/-- One callback per block, each with the environments of its two sends; `none` when there are
not two for every block. A throw ends the sequence. -/
def sendBlocks (ch : Channel) : Redirector → List Bytes → List SocketEnv →
    Option (Except Exn Unit × Redirector)
  | r, [], [] => some (.ok (), r)
  | r, b :: bs, e₁ :: e₂ :: es =>
    match r.DataReceivedEvent ch (e₁, e₂) b with
    | (.error e, r) => some (.error e, r)
    | (.ok _, r) => sendBlocks ch r bs es
  | _, _, _ => none

/-- The lengths `Socket::Send` is asked for, block by block: `4`, then `size` as an `int`. -/
def requests : List Bytes → List Int
  | [] => []
  | b :: bs => 4 :: i32 b.length :: requests bs

/-- The bytes that reach the wire when the calls take that many bytes each. -/
def takenBytes : List Bytes → List Nat → Bytes
  | b :: bs, m :: n :: ns => (le32 b.length).take m ++ b.take n ++ takenBytes bs ns
  | _, _ => []

/-! ## What reaches the wire -/

/-- A channel that is set up and can send: live, and with no cancel pending. -/
def Open (r : Redirector) (ch : Channel) (s : Socket) : Prop :=
  r.socket ch = some s ∧ s.m_IsAlive = true ∧ s.m_IsCancelWrite = false

/-- One callback puts the pieces its two sends had taken on the wire of its channel. -/
theorem DataReceivedEvent_takes {r : Redirector} {ch : Channel} {s : Socket} (h : r.Open ch s)
    (m n : Nat) (b : Bytes) :
    ∃ r' s', r.DataReceivedEvent ch (.takes m, .takes n) b = (.ok (), r') ∧ r'.Open ch s' ∧
      s'.sent = s.sent ++ ((le32 b.length).take m ++ b.take n) := by
  obtain ⟨hs, ha, hc⟩ := h
  let s₁ : Socket := { s with sent := s.sent ++ (le32 b.length).take m }
  let s₂ : Socket := { s₁ with sent := s₁.sent ++ b.take n }
  have hsend : s.sendSized (.takes m, .takes n) b = (.ok (), s₂) := by
    have h₁ : s.Send (.takes m) (le32 b.length) = (.ok m, s₁) := Socket.Send_takes ha hc m _
    have h₂ : s₁.Send (.takes n) b = (.ok n, s₂) := Socket.Send_takes (s := s₁) ha hc n b
    simp only [Socket.sendSized, h₁, h₂]
  have hdata : onData (some s) (.takes m, .takes n) b = (.ok (), some s₂) := by
    unfold onData
    simp only [hsend]
  have hsent : s₂.sent = s.sent ++ ((le32 b.length).take m ++ b.take n) := List.append_assoc _ _ _
  cases ch with
  | screen =>
    refine ⟨{ r with _projectorScreenSocket := some s₂ }, s₂, ?_, ⟨rfl, ha, hc⟩, hsent⟩
    have hfield : r._projectorScreenSocket = some s := hs
    simp only [DataReceivedEvent, ScreenDataReceivedEvent, hfield, hdata]
  | dr =>
    refine ⟨{ r with _drSocket := some s₂ }, s₂, ?_, ⟨rfl, ha, hc⟩, hsent⟩
    have hfield : r._drSocket = some s := hs
    simp only [DataReceivedEvent, DRDataReceivedEvent, hfield, hdata]
  | audio =>
    refine ⟨{ r with _audioplaybackSocket := some s₂ }, s₂, ?_, ⟨rfl, ha, hc⟩, hsent⟩
    have hfield : r._audioplaybackSocket = some s := hs
    simp only [DataReceivedEvent, AudioDataReceivedEvent, hfield, hdata]

/-- The requests of a block and the rest, answered one by one. -/
theorem answers_cons {R : Int → Nat → Prop} {b : Bytes} {bs : List Bytes} {counts : List Nat}
    (h : List.Forall₂ R (requests (b :: bs)) counts) :
    ∃ m n ns, counts = m :: n :: ns ∧ R 4 m ∧ R (i32 b.length) n ∧
      List.Forall₂ R (requests bs) ns := by
  rw [requests, List.forall₂_cons_left_iff] at h
  obtain ⟨m, ms, hm, hms, rfl⟩ := h
  obtain ⟨n, ns, hn, hns, rfl⟩ := List.forall₂_cons_left_iff.mp hms
  exact ⟨m, n, ns, rfl, hm, hn, hns⟩

/-- **The wire of a channel** after a sequence of blocks: the pieces taken, call by call. -/
theorem sendBlocks_takes {ch : Channel} {blocks : List Bytes} {counts : List Nat}
    {r : Redirector} {s : Socket} (hr : r.Open ch s)
    (h : List.Forall₂ Socket.Accepts (requests blocks) counts) :
    ∃ r' s', sendBlocks ch r blocks (counts.map .takes) = some (.ok (), r') ∧ r'.Open ch s' ∧
      s'.sent = s.sent ++ takenBytes blocks counts := by
  induction blocks generalizing counts r s with
  | nil =>
    cases h
    exact ⟨r, s, rfl, hr, (List.append_nil _).symm⟩
  | cons b bs ih =>
    obtain ⟨m, n, ns, rfl, -, -, hrest⟩ := answers_cons h
    obtain ⟨r₁, s₁, hev, hr₁, hs₁⟩ := DataReceivedEvent_takes hr m n b
    obtain ⟨r₂, s₂, hgo, hr₂, hs₂⟩ := ih hr₁ hrest
    refine ⟨r₂, s₂, ?_, hr₂, ?_⟩
    · simp only [List.map_cons, sendBlocks, hev, hgo]
    · rw [hs₂, hs₁, takenBytes, List.append_assoc]

/-- A request that can be answered is the length of the block: it is below `2 ^ 31`. -/
theorem request_of_accepts {b : Bytes} {n : Nat} (hb : b.length < 2 ^ 32)
    (h : Socket.Accepts (i32 b.length) n) : i32 b.length = b.length := by
  rcases Nat.lt_or_ge b.length (2 ^ 31) with hlt | hge
  · exact i32_of_lt (by omega) (by omega)
  · have hneg := i32_of_ge (n := (b.length : Int)) (by omega) (by omega)
    rcases h with ⟨h0, -, -⟩ | ⟨h0, -⟩ <;> omega

/-- The wire never gets longer than the frames, and is as long only when no send is short. -/
theorem takenBytes_length_le {blocks : List Bytes} {counts : List Nat}
    (hb : ∀ b ∈ blocks, b.length < 2 ^ 32)
    (h : List.Forall₂ Socket.Accepts (requests blocks) counts) :
    (takenBytes blocks counts).length ≤ (wire rdpFraming blocks).length ∧
      ((takenBytes blocks counts).length = (wire rdpFraming blocks).length →
        List.Forall₂ Socket.TakesAll (requests blocks) counts) := by
  induction blocks generalizing counts with
  | nil =>
    cases h
    exact ⟨Nat.le_refl _, fun _ => .nil⟩
  | cons b bs ih =>
    obtain ⟨m, n, ns, rfl, hm, hn, hrest⟩ := answers_cons h
    obtain ⟨hle, heq⟩ := ih (fun x hx => hb x (List.mem_cons_of_mem b hx)) hrest
    have hreq := request_of_accepts (hb b List.mem_cons_self) hn
    have hm4 : m ≤ 4 := by rcases hm with ⟨-, -, h⟩ | ⟨h, -⟩ <;> omega
    have hnb : n ≤ b.length := by rcases hn with ⟨-, -, h⟩ | ⟨h, h'⟩ <;> omega
    have hsize : rdpFraming.size = 4 := rfl
    simp only [takenBytes, wire, List.length_append, List.length_take, le32_length, frame_length,
      hsize, Nat.min_eq_left hm4, Nat.min_eq_left hnb]
    refine ⟨by omega, ?_⟩
    intro htot
    have hm : m = 4 := by omega
    have hn : n = b.length := by omega
    subst hm hn
    exact .cons rfl (.cons hreq.symm (heq (by omega)))

/-- With no short send the wire holds the frames. -/
theorem takenBytes_full {blocks : List Bytes} {counts : List Nat}
    (hb : ∀ b ∈ blocks, b.length < 2 ^ 32)
    (h : List.Forall₂ Socket.Accepts (requests blocks) counts)
    (hfull : List.Forall₂ Socket.TakesAll (requests blocks) counts) :
    takenBytes blocks counts = wire rdpFraming blocks := by
  induction blocks generalizing counts with
  | nil =>
    cases h
    rfl
  | cons b bs ih =>
    obtain ⟨m, n, ns, rfl, -, hn, hrest⟩ := answers_cons h
    obtain ⟨m', n', ns', he, hm', hn', hrest'⟩ := answers_cons hfull
    obtain ⟨rfl, rfl, rfl⟩ : m = m' ∧ n = n' ∧ ns = ns' := by simpa using he
    have hreq := request_of_accepts (hb b List.mem_cons_self) hn
    obtain rfl : m = 4 := Int.ofNat_inj.mp hm'
    obtain rfl : n = b.length := Int.ofNat_inj.mp (hn'.trans hreq)
    rw [takenBytes, ih (fun x hx => hb x (List.mem_cons_of_mem b hx)) hrest hrest',
      List.take_of_length_le (Nat.le_refl 4), List.take_of_length_le (Nat.le_refl b.length)]
    rfl

/-! ## The frames on the wire, and what the projector's parser makes of them -/

/-- The wire holds the frames of `blocks`, and a parser at its other end recovers the blocks
however the wire is cut into buffers. -/
def Framed (fresh : Nat → Mem UInt8) (s : Socket) (blocks : List Bytes) : Prop :=
  s.sent = wire rdpFraming blocks ∧
    ∀ chunks : List Bytes, chunks.flatten = s.sent →
      ∃ s₀ p, RdpStreamingParser.new fresh = .ok s₀ ∧
        RdpStreamingParser.feed fresh s₀ chunks = some (.ok (p, blocks.map .ofPayload))

/-- **The blocks arrive framed iff no send was short**: on a fresh channel, for every sequence of
blocks and of counts `send()` may return. -/
theorem framed_iff_no_short_send (fresh : Nat → Mem UInt8) {r : Redirector} {ch : Channel}
    (hr : r.socket ch = some .connected) {blocks : List Bytes} {counts : List Nat}
    (hb : ∀ b ∈ blocks, b.length < 2 ^ 32)
    (hc : List.Forall₂ Socket.Accepts (requests blocks) counts) :
    ∃ r' s', sendBlocks ch r blocks (counts.map .takes) = some (.ok (), r') ∧
      r'.socket ch = some s' ∧
      (Framed fresh s' blocks ↔
        List.Forall₂ Socket.TakesAll (requests blocks) counts) := by
  obtain ⟨r', s', hgo, ⟨hs', -, -⟩, hsent⟩ := sendBlocks_takes ⟨hr, rfl, rfl⟩ hc
  rw [show Socket.connected.sent = [] from rfl, List.nil_append] at hsent
  refine ⟨r', s', hgo, hs', ?_⟩
  constructor
  · rintro ⟨hw, -⟩
    exact (takenBytes_length_le hb hc).2 (by rw [← hsent, hw])
  · intro hfull
    have hw : s'.sent = wire rdpFraming blocks := hsent.trans (takenBytes_full hb hc hfull)
    refine ⟨hw, ?_⟩
    intro chunks hcut
    obtain ⟨s₀, hnew, h₀⟩ := RdpStreamingParser.new_holds fresh
    have hsplit : Splits rdpFraming chunks.flatten blocks [] :=
      ⟨by rw [hcut, hw, List.append_nil], hb, (Splits.nil (by decide)).tail⟩
    obtain ⟨p, hf, -⟩ := RdpStreamingParser.feed_of_splits fresh h₀ hsplit
    exact ⟨s₀, p, hnew, hf⟩

/-- Two blocks whose sends take everything. -/
theorem framed_iff_no_short_send_full :
    let r : Redirector := ⟨some .connected, none, none⟩
    ∃ r' s', sendBlocks .screen r [[1, 2], [3]] ([4, 2, 4, 1].map .takes) = some (.ok (), r') ∧
      r'.socket .screen = some s' ∧ Framed (fun _ _ => 0) s' [[1, 2], [3]] := by
  intro r
  have hr : r.socket .screen = some .connected := rfl
  have hb : ∀ b ∈ ([[1, 2], [3]] : List Bytes), b.length < 2 ^ 32 := by simp
  have hc : List.Forall₂ Socket.Accepts (requests [[1, 2], [3]]) [4, 2, 4, 1] := by
    simp [requests, Socket.Accepts]
  obtain ⟨r', s', hgo, hs', hiff⟩ := framed_iff_no_short_send (fun _ _ => 0) hr hb hc
  exact ⟨r', s', hgo, hs', hiff.mpr (by simp [requests, Socket.TakesAll])⟩

/-- **A short send loses bytes for good.** The second send of the first block takes one of its two
bytes: the wire is one byte short of the frames, and the parser reads the second block's length
into the first payload. -/
theorem short_send_desynchronises :
    let r : Redirector := ⟨some .connected, none, none⟩
    let wireBytes : Bytes := [2, 0, 0, 0, 1, 1, 0, 0, 0, 3]
    List.Forall₂ Socket.Accepts (requests [[1, 2], [3]]) [4, 1, 4, 1] ∧
      ∃ r' s', sendBlocks .screen r [[1, 2], [3]] ([4, 1, 4, 1].map .takes) = some (.ok (), r') ∧
        r'.socket .screen = some s' ∧ s'.sent = wireBytes ∧
        wireBytes ≠ wire rdpFraming [[1, 2], [3]] ∧ ¬ Framed (fun _ _ => 0) s' [[1, 2], [3]] := by
  refine ⟨by simp [requests, Socket.Accepts], _, _, rfl, rfl, rfl, by decide, ?_⟩
  intro h
  exact absurd h.1 (by decide)

end Redirector

end TiraRdp
