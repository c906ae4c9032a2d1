import TiraRdp.Lib.Loop
import TiraRdp.Rdp.RdpGfx
import TiraRdp.Rdp.TiraGfx

/-!
# The receive loops of the graphics channels

`tirardpgfx_on_data_received` (`tiragfx_main.c:334-376`) and `rdpgfx_on_data_received_Core`
(`rdpgfx_main.c:1150-1188`): `recv_pdu` on a decompressed buffer as long as the position is below
its length. Each call meets an environment of its own.

Result: the loops end, each successful call having increased the position, for every environment iff
each PDU that is taken announces a length that is not zero and ends below `2 ^ 32` (`advances_iff`).
-/

namespace TiraRdp

open Lib Lib.Loop

/-- The two copies of the channel. -/
inductive GfxChannel where
  | tiragfx
  | rdpgfx
  deriving Repr, DecidableEq

def GfxChannel.commands : GfxChannel → GfxCmdId → GfxHandler
  | tiragfx => tirardpgfxCommands
  | rdpgfx => rdpgfxCommands

/-- The loop between two calls, and what the calls ahead meet. -/
structure GfxLoop where
  s : wStream
  gfx : RdpgfxPlugin
  envs : Nat → GfxEnv

namespace GfxLoop

/-- The loop on a buffer. -/
def start (data : Bytes) (gfx : RdpgfxPlugin) (envs : Nat → GfxEnv) : GfxLoop :=
  ⟨.ofBuffer data, gfx, envs⟩

def more (l : GfxLoop) : Bool := decide (l.s.position < l.s.Length)

def body (c : GfxChannel) (l : GfxLoop) : Except Nat GfxLoop :=
  match recvPdu c.commands (l.envs 0) l.gfx l.s with
  | (.error e, _) => .error e
  | (.ok s, gfx) => .ok ⟨s, gfx, fun n => l.envs (n + 1)⟩

/-- The loop of `on_data_received`, at most `n` calls of it. -/
def onDataReceived (c : GfxChannel) (n : Nat) (l : GfxLoop) : Option (Except Nat GfxLoop) :=
  run more (body c) n l

/-- The loop ends. -/
def Terminates (c : GfxChannel) (l : GfxLoop) : Prop :=
  ∃ n result, onDataReceived c n l = some result

/-- Each call that answers `CHANNEL_RC_OK` increases the position. -/
def Increases (c : GfxChannel) (l : GfxLoop) : Prop :=
  ∀ t u, Iterates more (body c) l t → more t = true → body c t = .ok u → t.s.position < u.s.position

/-- The positions at which PDUs begin: the first one, and behind each PDU that is taken the one that
its header announces. -/
inductive Reaches (c : GfxChannel) (data : Bytes) : Nat → Prop
  | start : Reaches c data 0
  | next {p : Nat} (hp : Reaches c data p) (hlt : p < data.length)
      (haccepts : Accepts c.commands ⟨data, p⟩) :
      Reaches c data (u32 (p + (gfxHeader ⟨data, p⟩).pduLength))

/-- The PDU announces some length, and ends below `2 ^ 32`. -/
def Advances (s : wStream) : Prop :=
  0 < (gfxHeader s).pduLength ∧ s.position + (gfxHeader s).pduLength < 2 ^ 32

variable {c : GfxChannel} {data : Bytes} {l m : GfxLoop}

theorem more_within (hlt : l.more = true) (hlength : l.s.Length < 2 ^ 31) : l.s.Within :=
  ⟨Nat.le_of_lt (of_decide_eq_true hlt), hlength⟩

/-- What a call that answers `CHANNEL_RC_OK` does. -/
theorem body_ok (hmore : l.more = true) (hlength : l.s.Length < 2 ^ 31) (h : body c l = .ok m) :
    Accepts c.commands l.s ∧
      m.s = ⟨l.s.buffer, u32 (l.s.position + (gfxHeader l.s).pduLength)⟩ ∧
      m.envs = fun n => l.envs (n + 1) := by
  unfold body at h
  split at h
  · simp at h
  · rename_i s gfx hrecv
    obtain rfl := Except.ok.inj h
    obtain ⟨haccepts, hbuffer, hposition⟩ :=
      recvPdu_ok (more_within hmore hlength) (show (recvPdu _ _ _ _).1 = .ok s by rw [hrecv])
    refine ⟨haccepts, ?_, rfl⟩
    rw [← hbuffer, ← hposition]

/-- Where nothing fails, every PDU that is accepted is taken. -/
theorem body_accepts (hmore : l.more = true) (hlength : l.s.Length < 2 ^ 31)
    (henv : l.envs 0 = .fine) (haccepts : Accepts c.commands l.s) : ∃ m, body c l = .ok m := by
  obtain ⟨s, hs⟩ := recvPdu_accepts l.gfx (more_within hmore hlength) haccepts
  unfold body
  rw [henv]
  rcases hrecv : recvPdu c.commands .fine l.gfx l.s with ⟨r, gfx⟩
  rw [hrecv] at hs
  dsimp only at hs
  subst hs
  exact ⟨_, rfl⟩

/-- A length that was read is a word. -/
theorem pduLength_lt {s : wStream} (h : s.Within)
    (hle : RDPGFX_HEADER_SIZE ≤ s.GetRemainingLength) :
    (gfxHeader s).pduLength < 2 ^ 32 := by
  unfold RDPGFX_HEADER_SIZE at hle
  have hseek := h.position_seek (show 4 ≤ s.GetRemainingLength by omega)
  refine ofLe_lt ?_
  unfold wStream.Pointer
  rw [List.length_take, List.length_drop, hseek, wStream.Seek_buffer]
  have hremaining := h.remaining
  unfold wStream.Length at hremaining
  omega

/-- The sum wraps, if at all, to where it came from or before. -/
theorem lt_u32_iff {p n : Nat} (hp : p < 2 ^ 32) (hn : n < 2 ^ 32) :
    p < u32 (p + n) ↔ 0 < n ∧ p + n < 2 ^ 32 := by
  unfold u32
  omega

/-- **A call increases the position** exactly if the PDU it takes advances. -/
theorem increases_iff (hmore : l.more = true) (hlength : l.s.Length < 2 ^ 31)
    (h : body c l = .ok m) : l.s.position < m.s.position ↔ Advances l.s := by
  obtain ⟨haccepts, hs, -⟩ := body_ok hmore hlength h
  have hwithin := more_within hmore hlength
  have hposition : l.s.position < 2 ^ 32 :=
    Nat.lt_trans (of_decide_eq_true hmore) (Nat.lt_trans hlength (by decide))
  rw [hs]
  exact lt_u32_iff hposition (pduLength_lt hwithin haccepts.1)

section Buffer

variable (hbuffer : l.s.buffer = data)

include hbuffer

theorem length_lt (hlength : data.length < 2 ^ 31) : l.s.Length < 2 ^ 31 := by
  rwa [wStream.Length, hbuffer]

theorem more_iff : l.more = true ↔ l.s.position < data.length := by
  rw [more, wStream.Length, hbuffer, decide_eq_true_iff]

end Buffer

/-- The states that the loop on a buffer comes through. -/
structure On (c : GfxChannel) (data : Bytes) (l : GfxLoop) : Prop where
  buffer : l.s.buffer = data
  reaches : Reaches c data l.s.position

theorem On.stream (h : On c data l) : l.s = ⟨data, l.s.position⟩ := by
  rw [← h.buffer]

theorem On.start (gfx : RdpgfxPlugin) (envs : Nat → GfxEnv) : On c data (start data gfx envs) :=
  ⟨rfl, .start⟩

theorem On.next (hlength : data.length < 2 ^ 31) (h : On c data l) (hmore : l.more = true)
    (hbody : body c l = .ok m) : On c data m := by
  obtain ⟨haccepts, hs, -⟩ := body_ok hmore (length_lt h.buffer hlength) hbody
  rw [h.stream] at haccepts
  refine ⟨by rw [hs, h.buffer], ?_⟩
  rw [hs]
  have hnext := Reaches.next h.reaches ((more_iff h.buffer).mp hmore) haccepts
  rwa [← h.stream] at hnext

theorem On.increases (hlength : data.length < 2 ^ 31)
    (hadvances : ∀ p, Reaches c data p → p < data.length → Accepts c.commands ⟨data, p⟩ →
      Advances ⟨data, p⟩) (h : On c data l) (hmore : l.more = true) (hbody : body c l = .ok m) :
    l.s.position < m.s.position := by
  have hlen := length_lt h.buffer hlength
  obtain ⟨haccepts, -⟩ := body_ok hmore hlen hbody
  rw [increases_iff hmore hlen hbody]
  rw [h.stream] at haccepts ⊢
  exact hadvances _ h.reaches ((more_iff h.buffer).mp hmore) haccepts

/-- Where nothing fails, a call at a PDU that is accepted takes it. -/
theorem takes (hlength : data.length < 2 ^ 31) {p : Nat} (hs : l.s = ⟨data, p⟩)
    (henvs : l.envs = fun _ => .fine) (hlt : p < data.length)
    (haccepts : Accepts c.commands ⟨data, p⟩) :
    l.more = true ∧ l.s.Length < 2 ^ 31 ∧ ∃ m, body c l = .ok m := by
  have hbuffer : l.s.buffer = data := by rw [hs]
  have hmore : l.more = true := by
    rw [more_iff hbuffer, hs]
    exact hlt
  have hlen := length_lt hbuffer hlength
  exact ⟨hmore, hlen, body_accepts hmore hlen (by rw [henvs]) (hs ▸ haccepts)⟩

/-- Where nothing fails, the loop comes to every position. -/
theorem iterates_of_reaches (hlength : data.length < 2 ^ 31) (gfx : RdpgfxPlugin) {p : Nat}
    (h : Reaches c data p) :
    ∃ l, Iterates more (body c) (start data gfx fun _ => .fine) l ∧ l.s = ⟨data, p⟩ ∧
      l.envs = fun _ => .fine := by
  induction h with
  | start => exact ⟨_, .refl, rfl, rfl⟩
  | next hp hlt haccepts ih =>
    obtain ⟨l, hl, hs, henvs⟩ := ih
    obtain ⟨hmore, hlen, m, hm⟩ := takes hlength hs henvs hlt haccepts
    obtain ⟨-, hms, hmenvs⟩ := body_ok hmore hlen hm
    refine ⟨m, .next hl hmore hm, ?_, ?_⟩
    · rw [hms, hs]
    · rw [hmenvs, henvs]

/-- **The loops end** on a buffer, each successful call having increased the position, exactly when
each PDU that is taken announces a length that is not zero and ends below `2 ^ 32`. -/
theorem advances_iff (c : GfxChannel) (data : Bytes) (hlength : data.length < 2 ^ 31) :
    (∀ gfx envs, Terminates c (start data gfx envs) ∧ Increases c (start data gfx envs)) ↔
      ∀ p, Reaches c data p → p < data.length → Accepts c.commands ⟨data, p⟩ →
        Advances ⟨data, p⟩ := by
  constructor
  · intro h p hp hlt haccepts
    obtain ⟨l, hl, hs, henvs⟩ := iterates_of_reaches hlength ⟨0, 0, false, []⟩ hp
    obtain ⟨hmore, hlen, m, hm⟩ := takes hlength hs henvs hlt haccepts
    have hincreases := (h _ _).2 l m hl hmore hm
    rw [increases_iff hmore hlen hm] at hincreases
    exact hs ▸ hincreases
  · intro h gfx envs
    have hstart : On c data (start data gfx envs) := On.start gfx envs
    constructor
    · have hvariant (l m : GfxLoop) (hl : On c data l) (hmore : l.more = true)
          (hm : body c l = .ok m) :
          On c data m ∧ data.length - m.s.position < data.length - l.s.position := by
        have hlt := (more_iff hl.buffer).mp hmore
        have hincreases := hl.increases hlength h hmore hm
        exact ⟨hl.next hlength hmore hm, by omega⟩
      have hle := Nat.sub_le data.length (start data gfx envs).s.position
      exact ⟨_, run_ends hvariant _ _ hstart (Nat.lt_succ_of_le hle)⟩
    · intro l m hl hmore hm
      have hon := Iterates.invariant (fun _ _ h hc hb => On.next hlength h hc hb) hstart hl
      exact hon.increases hlength h hmore hm

/-- A frame: its start and its end. -/
def oneFrame : Bytes :=
  [0x0B, 0, 0, 0, 16, 0, 0, 0, 1, 2, 3, 4, 5, 6, 7, 8] ++ [0x0C, 0, 0, 0, 12, 0, 0, 0, 5, 6, 7, 8]

theorem oneFrame_advances (c : GfxChannel) (p : Nat) (hp : Reaches c oneFrame p)
    (hlt : p < oneFrame.length) : Advances ⟨oneFrame, p⟩ := by
  have hreaches : p = 0 ∨ p = 16 ∨ p = 28 := by
    clear hlt
    induction hp with
    | start => exact .inl rfl
    | next hp hlt haccepts ih =>
      rcases ih with rfl | rfl | rfl
      · exact .inr (.inl (by decide))
      · exact .inr (.inr (by decide))
      · exact absurd hlt (by decide)
  rcases hreaches with rfl | rfl | rfl
  · exact ⟨by decide, by decide⟩
  · exact ⟨by decide, by decide⟩
  · exact absurd hlt (by decide)

theorem advances_iff_frame :
    (Terminates .tiragfx (start oneFrame ⟨0, 0, false, []⟩ fun _ => .fine) ∧
      Increases .tiragfx (start oneFrame ⟨0, 0, false, []⟩ fun _ => .fine)) ∧
    Terminates .rdpgfx (start oneFrame ⟨0, 0, true, []⟩ fun _ => .fine) ∧
      Increases .rdpgfx (start oneFrame ⟨0, 0, true, []⟩ fun _ => .fine) := by
  constructor
  · exact (advances_iff .tiragfx oneFrame (by decide)).mpr
      (fun p hp hlt _ => oneFrame_advances .tiragfx p hp hlt) _ _
  · exact (advances_iff .rdpgfx oneFrame (by decide)).mpr
      (fun p hp hlt _ => oneFrame_advances .rdpgfx p hp hlt) _ _

/-- The end of a negotiation whose header says that it is empty: every call takes it, and comes back
to it. -/
theorem empty_pdu_loops :
    ¬ ∃ c : GfxChannel, ∀ data : Bytes, data.length < 2 ^ 31 → ∀ gfx envs,
      Terminates c (start data gfx envs) ∧ Increases c (start data gfx envs) := by
  rintro ⟨c, h⟩
  obtain ⟨⟨n, result, hend⟩, -⟩ :=
    h ([0x13, 0, 0, 0] ++ List.replicate 16 0) (by decide) ⟨0, 0, false, []⟩ fun _ => .fine
  have hrecv : recvPdu c.commands .fine ⟨0, 0, false, []⟩
      (.ofBuffer ([0x13, 0, 0, 0] ++ List.replicate 16 0)) =
        (.ok (.ofBuffer ([0x13, 0, 0, 0] ++ List.replicate 16 0)), ⟨0, 0, false, []⟩) := by
    cases c <;> rfl
  have hbody :
    body c (start ([0x13, 0, 0, 0] ++ List.replicate 16 0) ⟨0, 0, false, []⟩ fun _ => .fine) =
      .ok (start ([0x13, 0, 0, 0] ++ List.replicate 16 0) ⟨0, 0, false, []⟩ fun _ => .fine) := by
    unfold body start
    dsimp only
    rw [hrecv]
  rw [onDataReceived, run_stuck (by decide) hbody n] at hend
  exact absurd hend (by simp)

end GfxLoop

end TiraRdp
