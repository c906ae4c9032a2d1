import TiraRdp.Media.Pipe
import TiraRdp.Projector.TcpChannel
import TiraRdp.Redirector.Redirector

/-!
# A line of streams, from the redirector's callback to the channel of the projector

Screen, audio playback and device redirection are the same line: the data callback of the redirector
(`redirector-client/Redirector.cpp:173-196`), the connection, `TcpChannel::Workloop`
(`projector/TcpChannel.cpp:68-78`) with the callbacks of `IRdpSource::Start`
(`IRdpSource.cpp:14-27`), the `Pipe(4)` that `operator>>` makes (`common/media/ISource.cpp:9-13`), and
`Process` of the sink (`D2DRender.cpp:36-46`, `AudioPlayback.cpp:33-43`, `DeviceRedirecr.cpp:34-44`).
Three threads take part, and each action below is a step of one of them.

* `send`: a call of the callback; what the kernel takes is on its way to the other end.
* `receive`, `process`, `push`: the thread of the channel. It reads at most `READING_BUF_SIZE` bytes,
  takes the iterations of `RdpStreamingParser::Process` over them, and waits in `Push` with the stream
  of a message.
* `pop`, `handle`: the thread of the sink, which hands a stream of more than one byte on.

`Stop`, which cancels and pushes an empty stream, is not taken. A call that throws has no successor.

Results: where no send is short, what the sink hands on is a beginning of the blocks, those of less
than two bytes left out, whatever the schedule; the threads of the projector come to rest after a
number of steps that the bytes under way bound; and at rest every block has been handed on
(`line_delivers`).
-/

namespace TiraRdp

open Lib Lib.Lts Lib.Framing

structure StreamLine where
  near : Socket
  far : Socket
  m_Parser : RdpStreamingParser
  /-- what `Process` has not taken yet of the bytes last read -/
  chunk : Bytes
  /-- the streams that the callback has still to push -/
  pushing : List Bytes
  _in : Pipe Bytes
  /-- the stream that the sink has popped -/
  inStream : Option Bytes
  /-- the blocks that the callback was given -/
  blocks : List Bytes
  /-- the streams that the sink handed on -/
  handled : List Bytes

namespace StreamLine

/-- `READING_BUF_SIZE` (`TcpChannel.cpp:9`). -/
def READING_BUF_SIZE : Nat := 16

/-- Both ends connected, and nothing sent. -/
def initial (m_Parser : RdpStreamingParser) : StreamLine :=
  ⟨.connected, .connected, m_Parser, [], [], Pipe.new 4, none, [], []⟩

inductive Action where
  | send (env : SocketEnv × SocketEnv) (data : Bytes)
  | receive (n : Nat)
  | process
  | push
  | pop
  | handle

/-- The two sends of a block; what they had taken is under way. -/
def send (s : StreamLine) (env : SocketEnv × SocketEnv) (data : Bytes) : Option StreamLine :=
  match s.near.sendSized env data with
  | (.error _, _) => none
  | (.ok _, near) =>
    some { s with
      near := near
      far := { s.far with incoming := s.far.incoming ++ near.sent.drop s.near.sent.length }
      blocks := s.blocks ++ [data] }

/-- `ReadBytes` in `Workloop`. -/
def receive (s : StreamLine) (n : Nat) : Option StreamLine :=
  if s.chunk = [] ∧ s.pushing = [] then
    match s.far.Recv (.takes n) READING_BUF_SIZE with
    | (.error _, _) => none
    | (.ok bytes, far) => some { s with far := far, chunk := bytes }
  else none

/-- An iteration of the loop of `RdpStreamingParser::Process`, up to the `Push` of its callback. -/
def process (fresh : Nat → Mem UInt8) (s : StreamLine) : Option StreamLine :=
  if s.chunk ≠ [] ∧ s.pushing = [] then
    match s.m_Parser.iteration fresh s.chunk with
    | .error _ => none
    | .ok (m_Parser, chunk, messages) =>
      some { s with
        m_Parser := m_Parser
        chunk := chunk
        pushing := messages.map RdpStreamingMessage.m_ObjectBody }
  else none

/-- `_out->Push(stream)`, behind its wait. -/
def push (s : StreamLine) : Option StreamLine :=
  match s.pushing with
  | [] => none
  | stream :: pushing =>
    if s._in.mayPush then some { s with _in := s._in.push stream, pushing := pushing } else none

/-- `_in->Pop()`, behind its wait. -/
def pop (s : StreamLine) : Option StreamLine :=
  if s.inStream = none ∧ s._in.mayPop = true then
    match s._in.pop with
    | none => none
    | some (stream, _in) => some { s with _in := _in, inStream := some stream }
  else none

/-- `if (s->length > 1)`, and the call. -/
def handOn (handled : List Bytes) (stream : Bytes) : List Bytes :=
  if 1 < stream.length then handled ++ [stream] else handled

/-- The rest of `Process` of the sink. -/
def handle (s : StreamLine) : Option StreamLine :=
  match s.inStream with
  | none => none
  | some stream => some { s with inStream := none, handled := handOn s.handled stream }

def step (fresh : Nat → Mem UInt8) (s : StreamLine) : Action → Option StreamLine
  | .send env data => s.send env data
  | .receive n => s.receive n
  | .process => s.process fresh
  | .push => s.push
  | .pop => s.pop
  | .handle => s.handle

/-- The two sends of a block take all of it; its length is an `int`. -/
def Action.TakesAll : Action → Prop
  | .send env data => env = (.takes 4, .takes data.length) ∧ data.length < 2 ^ 31
  | _ => True

/-- A step of the projector. -/
def Action.AtProjector : Action → Prop
  | .send _ _ => False
  | _ => True

/-- The blocks that a sink hands on. -/
def handedOn (blocks : List Bytes) : List Bytes := blocks.filter fun block => 1 < block.length

theorem handOn_handedOn (blocks : List Bytes) (stream : Bytes) :
    handOn (handedOn blocks) stream = handedOn (blocks ++ [stream]) := by
  unfold handOn handedOn
  rw [List.filter_append, List.filter_cons, List.filter_nil]
  by_cases h : 1 < stream.length <;> simp [h]

/-! ## Where the blocks are -/

/-- The blocks in the order they came: those the sink is done with, the one it has, those in the
pipe and in the callback, and those whose bytes have not all been consumed. -/
structure Carries (s : StreamLine) : Prop where
  blocks : ∃ done later tail, s.blocks =
      done ++ s.inStream.toList ++ s._in._queue ++ s.pushing ++ later ∧
    s.handled = handedOn done ∧ s.m_Parser.Holds tail ∧
    tail ++ s.chunk ++ s.far.incoming = wire rdpFraming later
  short : ∀ block ∈ s.blocks, block.length < 2 ^ 32
  near_open : s.near.m_IsAlive = true ∧ s.near.m_IsCancelWrite = false
  far_open : s.far.m_IsAlive = true ∧ s.far.m_IsCancelRead = false
  not_cancelled : s._in._cancelled = false
  size_eq : s._in._size = 4
  bounded : s._in._queue.length ≤ 4

/-- What there is to do: a byte is read and consumed, a stream pushed, popped and handled. -/
def work (s : StreamLine) : Nat :=
  5 * s.far.incoming.length + 4 * s.chunk.length + 3 * s.pushing.length +
    2 * s._in._queue.length + s.inStream.toList.length

variable {fresh : Nat → Mem UInt8} {s t : StreamLine}

theorem Carries.initial {m_Parser : RdpStreamingParser} (h : m_Parser.Holds []) :
    Carries (initial m_Parser) where
  blocks := ⟨[], [], [], rfl, rfl, h, rfl⟩
  short := fun _ hb => nomatch hb
  near_open := ⟨rfl, rfl⟩
  far_open := ⟨rfl, rfl⟩
  not_cancelled := rfl
  size_eq := rfl
  bounded := Nat.zero_le _

/-- Sends that take all of a block put its frame under way. -/
theorem send_eq (h : Carries s) {data : Bytes} :
    s.send (.takes 4, .takes data.length) data = some { s with
      near := { s.near with sent := s.near.sent ++ frame rdpFraming data }
      far := { s.far with incoming := s.far.incoming ++ frame rdpFraming data }
      blocks := s.blocks ++ [data] } := by
  obtain ⟨ha, hc⟩ := h.near_open
  let near₁ : Socket := { s.near with sent := s.near.sent ++ (le32 data.length).take 4 }
  have hfirst : s.near.Send (.takes 4) (le32 data.length) = (.ok 4, near₁) :=
    Socket.Send_takes ha hc 4 _
  have hsecond := Socket.Send_takes (s := near₁) ha hc data.length data
  have hframe : (le32 data.length).take 4 ++ data.take data.length = frame rdpFraming data := by
    rw [List.take_length, List.take_of_length_le (Nat.le_of_eq (le32_length _))]
    rfl
  unfold send Socket.sendSized
  simp only [hfirst, hsecond]
  simp only [near₁, List.append_assoc, hframe, List.drop_left]

theorem Carries.send (h : Carries s) {data : Bytes} (hlt : data.length < 2 ^ 31)
    (hs : s.send (.takes 4, .takes data.length) data = some t) : Carries t := by
  rw [send_eq h, Option.some.injEq] at hs
  subst hs
  obtain ⟨done, later, tail, hblocks, hhandled, hholds, hwire⟩ := h.blocks
  refine { h with blocks := ⟨done, later ++ [data], tail, ?_, hhandled, hholds, ?_⟩, short := ?_ }
  · rw [hblocks]
    simp only [List.append_assoc]
  · rw [← List.append_assoc, hwire, wire_append, wire, wire, List.append_nil]
  · intro block hb
    rcases List.mem_append.mp hb with hb | hb
    · exact h.short block hb
    · obtain rfl := List.mem_singleton.mp hb
      exact Nat.lt_of_lt_of_le hlt (by decide)

/-- What reading does. -/
theorem receive_cases {n : Nat} (h : Carries s) (hs : s.receive n = some t) :
    s.chunk = [] ∧ ∃ bytes far, t = { s with far := far, chunk := bytes } ∧ bytes ≠ [] ∧
      s.far.incoming = bytes ++ far.incoming ∧ far.m_IsAlive = true ∧ far.m_IsCancelRead = false := by
  obtain ⟨ha, hc⟩ := h.far_open
  unfold receive at hs
  rw [Option.ite_none_right_eq_some] at hs
  obtain ⟨⟨hchunk, -⟩, hs⟩ := hs
  refine ⟨hchunk, ?_⟩
  by_cases hnil : s.far.incoming.take (min n READING_BUF_SIZE) = []
  · rw [Socket.Recv_closed ha hc hnil] at hs
    exact nomatch hs
  · rw [Socket.Recv_takes ha hc hnil, Option.some.injEq] at hs
    exact ⟨_, _, hs.symm, hnil, (List.take_append_drop _ _).symm, ha, hc⟩

theorem Carries.receive {n : Nat} (h : Carries s) (hs : s.receive n = some t) : Carries t := by
  obtain ⟨hchunk, bytes, far, rfl, -, hin, hfar⟩ := receive_cases h hs
  obtain ⟨done, later, tail, hblocks, hhandled, hholds, hwire⟩ := h.blocks
  refine { h with blocks := ⟨done, later, tail, hblocks, hhandled, hholds, ?_⟩, far_open := hfar }
  rw [hchunk, List.append_nil, hin, ← List.append_assoc] at hwire
  exact hwire

/-- What an iteration does: it consumes bytes, and the callback has the block whose frame they
complete. -/
theorem process_cases {tail : Bytes} (hholds : s.m_Parser.Holds tail)
    (hs : s.process fresh = some t) :
    s.pushing = [] ∧ ∃ m_Parser d rest out, s.chunk = d ++ rest ∧ d ≠ [] ∧
      t = { s with m_Parser := m_Parser, chunk := rest, pushing := out } ∧
      ((out = [] ∧ m_Parser.Holds (tail ++ d)) ∨
        ∃ block : Bytes, block.length < 2 ^ 32 ∧ out = [block] ∧
          tail ++ d = frame rdpFraming block ∧ m_Parser.Holds []) := by
  unfold process at hs
  rw [Option.ite_none_right_eq_some] at hs
  obtain ⟨⟨hne, hpushing⟩, hs⟩ := hs
  obtain ⟨m_Parser, d, rest, messages, hit, hchunk, hd, hadv⟩ :=
    RdpStreamingParser.iteration_spec fresh hholds hne
  simp only [hit, Option.some.injEq] at hs
  refine ⟨hpushing, m_Parser, d, rest, _, hchunk, hd, hs.symm, ?_⟩
  rcases hadv with ⟨rfl, hmore⟩ | ⟨block, hlt, rfl, hframe, hnew⟩
  · exact Or.inl ⟨rfl, hmore⟩
  · exact Or.inr ⟨block, hlt, rfl, hframe, hnew⟩

theorem Carries.process (h : Carries s) (hs : s.process fresh = some t) : Carries t := by
  obtain ⟨done, later, tail, hblocks, hhandled, hholds, hwire⟩ := h.blocks
  obtain ⟨hpushing, m_Parser, d, rest, out, hchunk, -, rfl, hadv⟩ := process_cases hholds hs
  rw [hchunk, ← List.append_assoc] at hwire
  rw [hpushing, List.append_nil] at hblocks
  rcases hadv with ⟨rfl, hmore⟩ | ⟨block, hlt, rfl, hframe, hnew⟩
  · refine { h with blocks := ⟨done, later, tail ++ d, ?_, hhandled, hmore, hwire⟩ }
    rw [hblocks, List.append_nil]
  · -- the frame that is complete is the first of those that were not
    rw [hframe, List.append_assoc] at hwire
    have hbound (b : Bytes) (hb : b ∈ later) : b.length < 2 ^ 32 :=
      h.short b (hblocks ▸ List.mem_append_right _ hb)
    obtain ⟨later, rfl, hrest⟩ := wire_eq_frame_append (by decide) hlt hbound hwire
    refine { h with blocks := ⟨done, later, [], ?_, hhandled, hnew, hrest⟩ }
    rw [hblocks]
    simp only [List.append_assoc, List.singleton_append]

/-- What pushing does: there is room, and the stream goes from the callback to the pipe. -/
theorem push_cases (h : Carries s) (hs : s.push = some t) :
    ∃ stream pushing, s.pushing = stream :: pushing ∧ s._in._queue.length < 4 ∧
      t = { s with _in := s._in.push stream, pushing := pushing } := by
  unfold push at hs
  cases hpushing : s.pushing with
  | nil => simp [hpushing] at hs
  | cons stream pushing =>
    simp only [hpushing, Option.ite_none_right_eq_some, Option.some.injEq] at hs
    obtain ⟨hmay, hs⟩ := hs
    have hroom : s._in._queue.length < 4 := by
      simpa [Pipe.mayPush, h.not_cancelled, h.size_eq] using hmay
    exact ⟨stream, pushing, rfl, hroom, hs.symm⟩

theorem Carries.push (h : Carries s) (hs : s.push = some t) : Carries t := by
  obtain ⟨done, later, tail, hblocks, hrest⟩ := h.blocks
  obtain ⟨stream, pushing, hpushing, hroom, rfl⟩ := push_cases h hs
  refine { h with blocks := ⟨done, later, tail, ?_, hrest⟩, bounded := ?_ }
  · rw [hblocks, hpushing, Pipe.push]
    simp only [List.append_assoc, List.singleton_append]
  · rw [Pipe.push, List.length_append, List.length_singleton]
    exact hroom

/-- What popping does: the stream goes from the pipe to the sink. -/
theorem pop_cases (hs : s.pop = some t) :
    s.inStream = none ∧ ∃ stream _in, s._in._queue = stream :: _in._queue ∧
      _in._cancelled = s._in._cancelled ∧ _in._size = s._in._size ∧
      t = { s with _in := _in, inStream := some stream } := by
  unfold pop at hs
  rw [Option.ite_none_right_eq_some] at hs
  obtain ⟨⟨hidle, -⟩, hs⟩ := hs
  cases hpop : s._in.pop with
  | none => simp [hpop] at hs
  | some popped =>
    obtain ⟨stream, _in⟩ := popped
    simp only [hpop, Option.some.injEq] at hs
    obtain ⟨hqueue, hcancelled, hsize⟩ := Pipe.pop_eq hpop
    exact ⟨hidle, stream, _in, hqueue, hcancelled, hsize, hs.symm⟩

theorem Carries.pop (h : Carries s) (hs : s.pop = some t) : Carries t := by
  obtain ⟨done, later, tail, hblocks, hrest⟩ := h.blocks
  obtain ⟨hidle, stream, _in, hqueue, hcancelled, hsize, rfl⟩ := pop_cases hs
  have hbounded := h.bounded
  rw [hqueue] at hblocks hbounded
  refine { h with
    blocks := ⟨done, later, tail, ?_, hrest⟩
    not_cancelled := hcancelled.trans h.not_cancelled
    size_eq := hsize.trans h.size_eq
    bounded := Nat.le_of_succ_le hbounded }
  rw [hblocks, hidle]
  simp

/-- What handling does: the sink is done with its stream. -/
theorem handle_cases (hs : s.handle = some t) :
    ∃ stream, s.inStream = some stream ∧
      t = { s with inStream := none, handled := handOn s.handled stream } := by
  unfold handle at hs
  cases hin : s.inStream with
  | none => simp [hin] at hs
  | some stream =>
    simp only [hin, Option.some.injEq] at hs
    exact ⟨stream, rfl, hs.symm⟩

theorem Carries.handle (h : Carries s) (hs : s.handle = some t) : Carries t := by
  obtain ⟨done, later, tail, hblocks, hhandled, hrest⟩ := h.blocks
  obtain ⟨stream, hin, rfl⟩ := handle_cases hs
  refine { h with blocks := ⟨done ++ [stream], later, tail, ?_, ?_, hrest⟩ }
  · rw [hblocks, hin]
    simp
  · rw [hhandled]
    exact handOn_handedOn done stream

theorem Carries.step {a : Action} (h : Carries s) (ha : a.TakesAll)
    (hs : step fresh s a = some t) : Carries t := by
  cases a with
  | send env data =>
    obtain ⟨rfl, hlt⟩ := ha
    exact h.send hlt hs
  | receive n => exact h.receive hs
  | process => exact h.process hs
  | push => exact h.push hs
  | pop => exact h.pop hs
  | handle => exact h.handle hs

/-! ## The projector comes to rest -/

/-- Each step of the projector leaves less to do. -/
theorem work_lt {a : Action} (h : Carries s) (ha : a.AtProjector) (hs : step fresh s a = some t) :
    work t < work s := by
  cases a with
  | send env data => exact absurd ha id
  | receive n =>
    obtain ⟨hchunk, bytes, far, rfl, hne, hin, -⟩ := receive_cases h hs
    have hpos := List.length_pos_of_ne_nil hne
    simp only [work, hchunk, hin, List.length_append, List.length_nil]
    omega
  | process =>
    obtain ⟨done, later, tail, -, -, hholds, -⟩ := h.blocks
    obtain ⟨hpushing, m_Parser, d, rest, out, hchunk, hd, rfl, hadv⟩ := process_cases hholds hs
    have hpos := List.length_pos_of_ne_nil hd
    have hout : out.length ≤ 1 := by
      rcases hadv with ⟨rfl, -⟩ | ⟨block, -, rfl, -⟩
      · exact Nat.zero_le 1
      · exact Nat.le_refl 1
    simp only [work, hpushing, hchunk, List.length_append, List.length_nil]
    omega
  | push =>
    obtain ⟨stream, pushing, hpushing, -, rfl⟩ := push_cases h hs
    simp only [work, hpushing, Pipe.push, List.length_append, List.length_cons, List.length_nil]
    omega
  | pop =>
    obtain ⟨hidle, stream, _in, hqueue, -, -, rfl⟩ := pop_cases hs
    simp only [work, hidle, hqueue, List.length_cons, Option.toList_none, Option.toList_some,
      List.length_nil]
    omega
  | handle =>
    obtain ⟨stream, hin, rfl⟩ := handle_cases hs
    simp only [work, hin, Option.toList_none, Option.toList_some, List.length_cons, List.length_nil]
    omega

/-- No thread of the projector can take a step. -/
def AtRest (fresh : Nat → Mem UInt8) (s : StreamLine) : Prop :=
  ∀ a, Action.AtProjector a → step fresh s a = none

/-- Where the projector is at rest every block has been handled: the sink, the pipe, the callback,
the parser's input and the connection are empty, one after the other. -/
theorem Carries.handled_eq (h : Carries s) (hrest : AtRest fresh s) :
    s.handled = handedOn s.blocks := by
  obtain ⟨done, later, tail, hblocks, hhandled, hholds, hwire⟩ := h.blocks
  have hin : s.inStream = none := by
    cases hin : s.inStream with
    | none => rfl
    | some stream =>
      have hstuck : s.handle = none := hrest .handle trivial
      simp [StreamLine.handle, hin] at hstuck
  have hqueue : s._in._queue = [] := by
    cases hqueue : s._in._queue with
    | nil => rfl
    | cons stream queue =>
      have hstuck : s.pop = none := hrest .pop trivial
      simp [StreamLine.pop, hin, Pipe.mayPop, Pipe.pop, hqueue] at hstuck
  have hpushing : s.pushing = [] := by
    cases hpushing : s.pushing with
    | nil => rfl
    | cons stream pushing =>
      have hstuck : s.push = none := hrest .push trivial
      simp [StreamLine.push, hpushing, Pipe.mayPush, hqueue, h.size_eq] at hstuck
  have hchunk : s.chunk = [] := by
    by_contra hne
    have hstuck : s.process fresh = none := hrest .process trivial
    obtain ⟨m_Parser, d, rest, messages, hit, -⟩ :=
      RdpStreamingParser.iteration_spec fresh hholds hne
    simp [StreamLine.process, hne, hpushing, hit] at hstuck
  have hincoming : s.far.incoming = [] := by
    by_contra hne
    have hstuck : s.receive 1 = none := hrest (.receive 1) trivial
    have htake : s.far.incoming.take (min 1 READING_BUF_SIZE) ≠ [] := by
      cases hbytes : s.far.incoming with
      | nil => exact absurd hbytes hne
      | cons byte bytes => exact List.cons_ne_nil _ _
    simp [StreamLine.receive, hchunk, hpushing,
      Socket.Recv_takes h.far_open.1 h.far_open.2 htake] at hstuck
  rw [hchunk, hincoming, List.append_nil, List.append_nil] at hwire
  have hlater : later = [] := by
    cases later with
    | nil => rfl
    | cons block later =>
      have hblock : block.length < 2 ^ 32 := by
        refine h.short block ?_
        rw [hblocks]
        exact List.mem_append_right _ List.mem_cons_self
      exact absurd (hwire ▸ hholds.incomplete) (not_incomplete_frame hblock _)
  rw [hhandled, hblocks, hin, hqueue, hpushing, hlater]
  simp

/-- What has been handled is a beginning of what there was to handle. -/
theorem Carries.handled_prefix (h : Carries s) : s.handled <+: handedOn s.blocks := by
  obtain ⟨done, later, tail, hblocks, hhandled, -⟩ := h.blocks
  rw [hhandled, hblocks]
  simp only [List.append_assoc]
  unfold handedOn
  rw [List.filter_append]
  exact List.prefix_append _ _

/-- Steps of the projector do not touch the blocks. -/
theorem blocks_step {a : Action} (h : Carries s) (ha : a.AtProjector)
    (hs : step fresh s a = some t) : t.blocks = s.blocks := by
  cases a with
  | send env data => exact absurd ha id
  | receive n =>
    obtain ⟨-, bytes, far, rfl, -⟩ := receive_cases h hs
    rfl
  | process =>
    obtain ⟨done, later, tail, -, -, hholds, -⟩ := h.blocks
    obtain ⟨-, m_Parser, d, rest, out, -, -, rfl, -⟩ := process_cases hholds hs
    rfl
  | push =>
    obtain ⟨stream, pushing, -, -, rfl⟩ := push_cases h hs
    rfl
  | pop =>
    obtain ⟨-, stream, _in, -, -, -, rfl⟩ := pop_cases hs
    rfl
  | handle =>
    obtain ⟨stream, -, rfl⟩ := handle_cases hs
    rfl

/-! ## Runs -/

/-- What holds at the end of a run whose sends take all. -/
theorem carries_of_run {m_Parser : RdpStreamingParser}
    (hnew : RdpStreamingParser.new fresh = .ok m_Parser) {as : List Action}
    (hsends : ∀ a ∈ as, a.TakesAll)
    (hrun : run (step fresh) (initial m_Parser) as = some s) : Carries s := by
  obtain ⟨parser, hparser, hholds⟩ := RdpStreamingParser.new_holds fresh
  obtain rfl : m_Parser = parser := Except.ok.inj (hnew.symm.trans hparser)
  have hmeets : Meets (step fresh) (fun _ a => a.TakesAll) (initial m_Parser) as :=
    meets_of_forall (fun _ _ ha => ha) hsends
  exact run_invariant (fun _ _ _ h ha hs => h.step ha hs) (Carries.initial hholds) hmeets hrun

/-- What a step of the projector keeps. -/
theorem keeps_step (blocks : List Bytes) (s : StreamLine) (a : Action) (t : StreamLine)
    (h : Carries s ∧ s.blocks = blocks) (ha : a.AtProjector) (hs : step fresh s a = some t) :
    Carries t ∧ t.blocks = blocks := by
  refine ⟨h.1.step ?_ hs, (blocks_step h.1 ha hs).trans h.2⟩
  cases a with
  | send env data => exact absurd ha id
  | _ => trivial

/-- **The line delivers.** Where no send is short, at any time of any run: the pipe is within its
bound, and what has been handed on is a beginning of what there is to hand on; the projector takes at
most `work` steps more; and when it can take none, all of it has been handed on. -/
theorem line_delivers {m_Parser : RdpStreamingParser}
    (hnew : RdpStreamingParser.new fresh = .ok m_Parser) {as : List Action}
    (hsends : ∀ a ∈ as, a.TakesAll)
    (hrun : run (step fresh) (initial m_Parser) as = some s) :
    s._in._queue.length ≤ 4 ∧ s.handled <+: handedOn s.blocks ∧
      (∀ bs t, (∀ a ∈ bs, Action.AtProjector a) → run (step fresh) s bs = some t →
        bs.length ≤ work s ∧ (AtRest fresh t → t.handled = handedOn s.blocks)) ∧
      ∃ bs t, (∀ a ∈ bs, Action.AtProjector a) ∧ run (step fresh) s bs = some t ∧ AtRest fresh t := by
  have h := carries_of_run hnew hsends hrun
  have hlt (u : StreamLine) (a : Action) (t : StreamLine) (hu : Carries u ∧ u.blocks = s.blocks)
      (ha : a.AtProjector) (hs : step fresh u a = some t) : work t < work u := work_lt hu.1 ha hs
  refine ⟨h.bounded, h.handled_prefix, ?_, exists_run_to_end (keeps_step s.blocks) hlt ⟨h, rfl⟩⟩
  intro bs t hbs ht
  have hlength := run_length_le (keeps_step s.blocks) hlt ⟨h, rfl⟩ hbs ht
  refine ⟨Nat.le_of_add_right_le hlength, fun hend => ?_⟩
  have hmeets : Meets (step fresh) (fun _ a => Action.AtProjector a) s bs :=
    meets_of_forall (fun _ _ ha => ha) hbs
  obtain ⟨hcarries, hblocks⟩ := run_invariant (keeps_step s.blocks) ⟨h, rfl⟩ hmeets ht
  rw [hcarries.handled_eq hend, hblocks]

/-- Two blocks, the first of which has reached the pipe. -/
def twoBlocks : List Action :=
  [.send (.takes 4, .takes 2) [7, 8], .send (.takes 4, .takes 1) [9], .receive 9, .process, .process,
    .push]

theorem line_delivers_two :
    ∃ m_Parser s, RdpStreamingParser.new (fun _ _ => 0) = .ok m_Parser ∧
      run (step fun _ _ => 0) (initial m_Parser) twoBlocks = some s ∧
      s.handled <+: handedOn [[7, 8], [9]] := by
  refine ⟨_, _, rfl, rfl, ?_⟩
  have hsends : ∀ a ∈ twoBlocks, a.TakesAll := by
    simp [twoBlocks, Action.TakesAll]
  have hnew : RdpStreamingParser.new (fun _ _ => 0) = .ok _ := rfl
  exact (line_delivers hnew hsends rfl).2.1

end StreamLine

end TiraRdp
