import TiraRdp.Rdp.GfxSession
import TiraRdp.System.StreamLine

/-!
# The screen, from the server's messages to the graphics channel of the projector

`tirardpgfx_on_data_received` hands a message of the server on before it looks into it
(`tiragfx_main.c:346`), and the callback of the redirector sends it as it is. At the other end of the
line `D2DRender::Process` gives it to `rdpgfx_on_data_received_Core`, with a decompressor of its own.

Result: at any time of any run of the line the projector's channel has answered what `recv_pdu` answers
to a beginning of the texts that the messages mean, and left its counters; at rest, to all of them
(`screen_shows`).
-/

namespace TiraRdp.ScreenLine

open Lib Lib.Lts Zgfx Lz77 GfxSession StreamLine

/-- A message that is spelled well has a descriptor and a segment, or a descriptor and counts. -/
theorem one_lt_length {tokens : List (Token UInt8)} {bytes : Bytes} (h : SpellsMessage tokens bytes) :
    1 < bytes.length := by
  cases h with
  | single hsegment => cases hsegment <;> simp
  | multipart _ _ => simp [le16]

/-- The sink hands every message on. -/
theorem handedOn_messages (messages : List Message) :
    handedOn (messages.map Message.bytes) = messages.map Message.bytes := by
  unfold handedOn
  rw [List.filter_eq_self]
  intro block hblock
  obtain ⟨m, -, rfl⟩ := List.mem_map.mp hblock
  exact decide_eq_true (one_lt_length m.spells)

/-- The channel of the projector has done with the messages handed on what `recv_pdu` does with the
first `k` texts. -/
def Shows (messages : List Message) (handled : List Bytes) (k : Nat) : Prop :=
  handled = (messages.take k).map Message.bytes ∧
    ∃ enough, ∀ fuel, enough ≤ fuel → ∀ (envs : List DataEnv) (gfx : RdpgfxPlugin),
      envs.length = (messages.take k).length →
      (onDataReceivedAll .rdpgfx fuel (envs.zip handled) ⟨zgfx_context_new, gfx⟩).map
          (fun result => (result.1, result.2.gfx)) =
        recvTexts .rdpgfx fuel (envs.zip (expandEach (List.replicate 2500000 0)
          ((messages.take k).map Message.tokens))) gfx

theorem shows_of_handled {messages : List Message} {handled : List Bytes} {k : Nat}
    (h : handled = (messages.take k).map Message.bytes) : Shows messages handled k := by
  obtain ⟨enough, henough⟩ := enough_exists (messages.take k)
  refine ⟨h, enough, fun fuel hle envs gfx hlen => ?_⟩
  rw [h]
  exact transparent_from .rdpgfx fuel envs _ hlen (fun m hm => Nat.le_trans (henough m hm) hle)
    ⟨zgfx_context_new_keeps, rfl⟩

/-- **The screen arrives.** The messages of the server are the blocks of a line whose sends are not
short; then the projector shows a beginning of what they mean, and at rest all of it. -/
theorem screen_shows {fresh : Nat → Mem UInt8} {m_Parser : RdpStreamingParser}
    (hnew : RdpStreamingParser.new fresh = .ok m_Parser) {as : List Action} {s : StreamLine}
    (hsends : ∀ a ∈ as, a.TakesAll) (hrun : run (step fresh) (initial m_Parser) as = some s)
    {messages : List Message} (hblocks : s.blocks = messages.map Message.bytes) :
    ∃ k, k ≤ messages.length ∧ Shows messages s.handled k ∧
      (AtRest fresh s → k = messages.length) := by
  have h := carries_of_run hnew hsends hrun
  have hprefix := h.handled_prefix
  rw [hblocks, handedOn_messages] at hprefix
  have hlength := hprefix.length_le
  rw [List.length_map] at hlength
  refine ⟨s.handled.length, hlength, shows_of_handled ?_, ?_⟩
  · rw [List.map_take]
    exact List.prefix_iff_eq_take.mp hprefix
  · intro hrest
    have hall := h.handled_eq hrest
    rw [hblocks, handedOn_messages] at hall
    rw [hall, List.length_map]

/-- The message of frame 7, sent, and read up to the pipe. -/
def oneMessage : List Action :=
  [.send (.takes 4, .takes firstMessage.bytes.length) firstMessage.bytes, .receive 16, .process,
    .process, .receive 16, .process, .receive 7, .process, .push, .pop, .handle]

theorem screen_shows_message :
    ∃ m_Parser s, RdpStreamingParser.new (fun _ _ => 0) = .ok m_Parser ∧
      run (step fun _ _ => 0) (initial m_Parser) oneMessage = some s ∧
      Shows [firstMessage] s.handled 1 := by
  obtain ⟨m_Parser, hnew, hholds⟩ := RdpStreamingParser.new_holds fun _ _ => 0
  have hany : (run (step fun _ _ => 0) (initial m_Parser) oneMessage).any (fun t =>
      t.blocks = [firstMessage.bytes] ∧ t.handled = [firstMessage.bytes]) = true := by
    obtain rfl := Except.ok.inj hnew
    decide +kernel
  obtain ⟨s, hrun, hblocks, hhandled⟩ := run_of_any hany
  have hsends : ∀ a ∈ oneMessage, a.TakesAll := by
    simp [oneMessage, Action.TakesAll, firstMessage]
  have hmessages : s.blocks = [firstMessage].map Message.bytes := hblocks
  obtain ⟨k, hk, hshows, -⟩ := screen_shows hnew hsends hrun hmessages
  have hone : k = 1 := by
    have hlength := congrArg List.length (hhandled.symm.trans hshows.1)
    simp only [List.length_map, List.length_take, List.length_singleton] at hlength hk
    omega
  exact ⟨m_Parser, s, hnew, hrun, hone ▸ hshows⟩

end TiraRdp.ScreenLine
