import TiraRdp.Lib.Lts
import TiraRdp.Projector.RdpStreamingParser
import TiraRdp.Utility.Socket

/-!
# `AudioSocketReader`: the audio back-channel

`AudioSocketReader::Workloop` (`redirector-client/AudioSocketReader.cpp:26-57`) over a `Socket`, a
call of `Recv` a step, on the blocks that `OnAudioFormatInfodataReceive` has sent
(`projector/AudioSource.cpp:4-8`): the size in four bytes, little-endian, then the data
(`rdpFraming`). `size` is zero before the first `Recv`, so what a short one leaves out reads as
zero; its result is not looked at. Each block is read into `malloc(1000)`; `malloc` gives what the
n-th block of memory holds.

The second argument of `Recv` is an `int`. No call gets past it with 0 bytes, which is taken for a
close, and no `recv()` succeeds on a negative length. Ghost fields: the bytes received; how many of
them the size at hand came in (`got`); was a byte written past the memory (`stray`); was a call made
that cannot succeed (`gaveUp`).

Result: the blocks delivered are those wholly received, in order, and nothing strays, in every state
of a run iff no size is zero or reads as a negative `int`, no data goes past the memory, and no
block is completed whose size came in pieces (`framed_iff_whole`).
-/

namespace TiraRdp

open Lib Lib.Framing Lib.Lts

/-- Where `Workloop` is. -/
inductive AudioReaderPc where
  /-- at the `Recv` of a size, or in `CanLoopContinue` in front of it -/
  | size
  /-- at a `Recv` of data -/
  | data (got size len : Nat)
  | returned
  deriving Repr, DecidableEq

structure AudioSocketReader where
  m_socket : Socket
  pc : AudioReaderPc
  buf : Mem UInt8
  delivered : List Bytes
  received : Bytes
  stray : Bool
  gaveUp : Bool

namespace AudioSocketReader

/-- What the projector puts on the wire. -/
def sends (blocks : List Bytes) : Bytes := wire rdpFraming blocks

/-- A started reader, and the blocks that are, or will be, sent to it. -/
def initial (blocks : List Bytes) : AudioSocketReader where
  m_socket := .receiving (sends blocks)
  pc := .size
  buf := fun _ => 0
  delivered := []
  received := []
  stray := false
  gaveUp := false

inductive Action where
  | recv (env : SocketEnv)
  /-- `CanLoopContinue` answers false -/
  | stop

/-- `min(size, size - len)`. -/
def request (size len : Nat) : Nat := min size (subU32 size len)

/-- The data of a `Recv` put into `buf`, and the block delivered when it is the last. -/
def put (s : AudioSocketReader) (got size len : Nat) (bytes : Bytes) : AudioSocketReader :=
  let t := { s with
    buf := s.buf.write len bytes
    received := s.received ++ bytes
    stray := s.stray || decide (1000 < len + bytes.length) }
  if len + bytes.length = size then
    { t with delivered := t.delivered ++ [t.buf.read 0 size], pc := .size }
  else { t with pc := .data got size (len + bytes.length) }

/-- `recv()` answers a negative length with an error. -/
def Answers (request : Nat) (env : SocketEnv) : Prop :=
  request < 2 ^ 31 ∨ ∃ error, env.answer = .socketError error

instance (request : Nat) (env : SocketEnv) : Decidable (Answers request env) :=
  match hanswer : env.answer with
  | .socketError error => .isTrue (.inr ⟨error, hanswer⟩)
  | .count _ => decidable_of_iff (request < 2 ^ 31)
      ⟨.inl, fun h => h.resolve_right fun ⟨_, h⟩ => by simp [hanswer] at h⟩

def step (malloc : Nat → Mem UInt8) (s : AudioSocketReader) : Action → Option AudioSocketReader
  | .stop => if s.pc = .size then some { s with pc := .returned } else none
  | .recv env =>
    match s.pc with
    | .size =>
      match s.m_socket.Recv env 4 with
      | (.error _, m_socket) => some { s with m_socket, pc := .returned }
      | (.ok bytes, m_socket) =>
        some { s with
          m_socket
          buf := malloc s.delivered.length
          received := s.received ++ bytes
          pc := .data bytes.length (ofLe bytes) 0 }
    | .data got size len =>
      if Answers (request size len) env then
        match s.m_socket.Recv env (request size len) with
        | (.error _, m_socket) =>
          some { s with
            m_socket
            pc := .returned
            gaveUp := decide (request size len = 0 ∨ 2 ^ 31 ≤ request size len) }
        | (.ok bytes, m_socket) => some ({ s with m_socket }.put got size len bytes)
      else none
    | .returned => none

/-- The blocks delivered are the first ones sent, the bytes received are theirs and less than the
next one's; no byte was written past the memory, no call made that cannot succeed. -/
structure Framed (blocks : List Bytes) (s : AudioSocketReader) : Prop where
  inBuffer : s.stray = false
  goesOn : s.gaveUp = false
  delivered : s.delivered <+: blocks
  whole : ∃ tail, s.received = sends s.delivered ++ tail ∧ Incomplete rdpFraming tail

/-- A `Recv` that keeps the framing: it brings no size of zero; it asks for some data and not for a
negative number of bytes, stays in the memory, and completes a block only if its size came whole. -/
def Whole (s : AudioSocketReader) : Action → Prop
  | .stop => True
  | .recv env =>
    match s.pc with
    | .size =>
      ∀ bytes, (s.m_socket.Recv env 4).1 = .ok bytes → ¬ (bytes.length = 4 ∧ ofLe bytes = 0)
    | .data got size len =>
      (request size len ≠ 0 ∧ request size len < 2 ^ 31) ∧
        ∀ bytes, (s.m_socket.Recv env (request size len)).1 = .ok bytes →
          len + bytes.length ≤ 1000 ∧ (len + bytes.length = size → got = 4)
    | .returned => True

/-! ## Where the reader stands -/

/-- Where the reader stands in the frame that follows the blocks delivered: at its start; behind a
piece of its size and some data; or it has returned. -/
inductive Stands (s : AudioSocketReader) : Prop
  | size (hpc : s.pc = .size) (hreceived : s.received = sends s.delivered)
  | data {got size len : Nat} (header : Bytes) (hpc : s.pc = .data got size len)
      (hgot : header.length = got) (hsize : ofLe header = size) (hgot4 : got ≤ 4)
      (hreceived : s.received = sends s.delivered ++ (header ++ s.buf.read 0 len))
      (hshort : got + len < 4 + size) (hlen : len ≤ size)
  | returned (tail : Bytes) (hpc : s.pc = .returned)
      (hreceived : s.received = sends s.delivered ++ tail) (htail : Incomplete rdpFraming tail)

/-- The invariant of a reader that keeps the framing. -/
structure Reads (blocks : List Bytes) (s : AudioSocketReader) : Prop where
  inBuffer : s.stray = false
  goesOn : s.gaveUp = false
  conserved : s.received ++ s.m_socket.incoming = sends blocks
  bound : ∀ b ∈ s.delivered, b.length < 2 ^ 32
  stands : Stands s

theorem incomplete_nil : Incomplete rdpFraming [] := nofun

/-- A piece of a size with less data than the piece announces. -/
theorem incomplete_data {header body : Bytes} (hheader : header.length ≤ 4)
    (hshort : header.length + body.length < 4 + ofLe header) :
    Incomplete rdpFraming (header ++ body) := by
  intro _
  have htake : (header ++ body).take 4 = header ++ body.take (4 - header.length) := by
    rw [List.take_append, List.take_of_length_le hheader]
  have hle : ofLe header ≤ ofLe ((header ++ body).take 4) := by
    rw [htake]
    exact ofLe_le_append _ _
  show (header ++ body).length < 4 + ofLe ((header ++ body).take 4)
  rw [List.length_append]
  omega

variable {malloc : Nat → Mem UInt8} {blocks : List Bytes} {s s' : AudioSocketReader} {a : Action}

theorem Stands.tail (h : Stands s) :
    ∃ tail, s.received = sends s.delivered ++ tail ∧ Incomplete rdpFraming tail := by
  cases h with
  | size hpc hreceived => exact ⟨[], by rw [hreceived, List.append_nil], incomplete_nil⟩
  | data header hpc hgot hsize hgot4 hreceived hshort =>
    refine ⟨_, hreceived, incomplete_data (by omega) ?_⟩
    rw [Mem.read_length, hgot, hsize]
    exact hshort
  | returned tail hpc hreceived htail => exact ⟨tail, hreceived, htail⟩

theorem Reads.framed (hblocks : ∀ b ∈ blocks, b.length < 2 ^ 32) (h : Reads blocks s) :
    Framed blocks s := by
  obtain ⟨tail, hreceived, htail⟩ := h.stands.tail
  have hsplits : Splits rdpFraming s.received s.delivered tail := ⟨hreceived, h.bound, htail⟩
  have hprefix := prefix_of_wire (C := rdpFraming) (by decide) hsplits h.conserved hblocks
  exact ⟨h.inBuffer, h.goesOn, hprefix, tail, hreceived, htail⟩

theorem Reads.initial (blocks : List Bytes) : Reads blocks (initial blocks) where
  inBuffer := rfl
  goesOn := rfl
  conserved := rfl
  bound := nofun
  stands := .size rfl rfl

/-- A `Recv` that throws ends the loop. -/
theorem Reads.throws (h : Reads blocks s) {m_socket : Socket}
    (hincoming : m_socket.incoming = s.m_socket.incoming) {gaveUp : Bool}
    (hgaveUp : gaveUp = false) :
    Reads blocks { s with m_socket, pc := .returned, gaveUp } := by
  obtain ⟨tail, hreceived, htail⟩ := h.stands.tail
  refine ⟨h.inBuffer, hgaveUp, ?_, h.bound, .returned tail rfl hreceived htail⟩
  show s.received ++ m_socket.incoming = _
  rw [hincoming, h.conserved]

/-- The size, or a piece of it. -/
theorem Reads.size (h : Reads blocks s) (hreceived : s.received = sends s.delivered)
    {m_socket : Socket} {bytes : Bytes}
    (hincoming : s.m_socket.incoming = bytes ++ m_socket.incoming)
    (hlen : bytes.length ≤ 4) (hzero : ¬ (bytes.length = 4 ∧ ofLe bytes = 0)) :
    Reads blocks { s with
      m_socket
      buf := malloc s.delivered.length
      received := s.received ++ bytes
      pc := .data bytes.length (ofLe bytes) 0 } := by
  refine ⟨h.inBuffer, h.goesOn, ?_, h.bound, .data bytes rfl rfl rfl hlen ?_ ?_ (Nat.zero_le _)⟩
  · rw [List.append_assoc, ← hincoming, h.conserved]
  · rw [hreceived]
    simp [Mem.read]
  · omega

/-- Data that stays in the memory, and completes no block of which the size came in pieces. -/
theorem Reads.put (h : Reads blocks s) {got size len : Nat} {header : Bytes}
    (hgot : header.length = got) (hsize : ofLe header = size) (hgot4 : got ≤ 4)
    (hreceived : s.received = sends s.delivered ++ (header ++ s.buf.read 0 len))
    {m_socket : Socket} {bytes : Bytes}
    (hincoming : s.m_socket.incoming = bytes ++ m_socket.incoming)
    (hlen : len + bytes.length ≤ size) (hin : len + bytes.length ≤ 1000)
    (hwhole : len + bytes.length = size → got = 4) :
    Reads blocks ({ s with m_socket }.put got size len bytes) := by
  have hconserved : s.received ++ bytes ++ m_socket.incoming = sends blocks := by
    rw [List.append_assoc, ← hincoming, h.conserved]
  have hstray : (s.stray || decide (1000 < len + bytes.length)) = false := by
    simp [h.inBuffer, hin]
  have hread : (s.buf.write len bytes).read 0 (len + bytes.length) = s.buf.read 0 len ++ bytes := by
    have happend := Mem.read_write_append s.buf 0 len bytes
    rwa [Nat.zero_add] at happend
  unfold AudioSocketReader.put
  by_cases hdone : len + bytes.length = size
  · -- the bytes since the last block are the frame of this one
    simp only [hdone, if_true]
    rw [hdone] at hread
    have hgot4 : header.length = 4 := hgot.trans (hwhole hdone)
    have hblock : ((s.buf.write len bytes).read 0 size).length = size := Mem.read_length _ _ _
    have hframe : header ++ (s.buf.read 0 len ++ bytes) =
        frame rdpFraming ((s.buf.write len bytes).read 0 size) := by
      show _ = le32 _ ++ _
      rw [hblock, ← hsize, le32_ofLe hgot4, hsize, hread]
    refine ⟨?_, h.goesOn, hconserved, ?_, .size rfl ?_⟩
    · rwa [hdone] at hstray
    · intro b hb
      rcases List.mem_append.mp hb with hb | hb
      · exact h.bound b hb
      · rw [List.mem_singleton.mp hb, hblock, ← hsize]
        exact ofLe_lt hgot4
    · show s.received ++ bytes = sends (s.delivered ++ [_])
      rw [sends, wire_append, hreceived, List.append_assoc, List.append_assoc, hframe]
      simp [wire, sends]
  · rw [if_neg hdone]
    refine ⟨hstray, h.goesOn, hconserved, h.bound, .data header rfl hgot hsize hgot4 ?_ ?_ hlen⟩
    · show s.received ++ bytes = _
      rw [hread, hreceived]
      simp only [List.append_assoc]
    · omega

/-- A size read in one piece or less is a word. -/
theorem size_lt {header : Bytes} (h : header.length ≤ 4) : ofLe header < 2 ^ 32 := by
  have hpad : (header ++ List.replicate (4 - header.length) 0).length = 4 := by
    rw [List.length_append, List.length_replicate]
    omega
  exact Nat.lt_of_le_of_lt (ofLe_le_append _ _) (ofLe_lt hpad)

theorem request_eq {size len : Nat} (hsize : size < 2 ^ 32) (hlen : len ≤ size) :
    request size len = size - len := by
  rw [request, subU32_of_le hsize hlen]
  exact Nat.min_eq_right (Nat.sub_le size len)

theorem Reads.step (h : Reads blocks s) (hwhole : s.Whole a) (hs : s.step malloc a = some s') :
    Reads blocks s' := by
  cases a with
  | stop =>
    simp only [AudioSocketReader.step, Option.ite_none_right_eq_some, Option.some.injEq] at hs
    exact hs.2 ▸ h.throws rfl h.goesOn
  | recv env =>
    cases h.stands with
    | size hpc hreceived =>
      simp only [AudioSocketReader.step, hpc] at hs
      simp only [Whole, hpc] at hwhole
      rcases s.m_socket.Recv_cases env 4 with
        ⟨e, m_socket, hrecv, hincoming, -⟩ | ⟨bytes, m_socket, hrecv, -, hincoming, -, hlen⟩
      · simp only [hrecv, Option.some.injEq] at hs
        exact hs ▸ h.throws hincoming h.goesOn
      · simp only [hrecv, Option.some.injEq] at hs
        exact hs ▸ h.size hreceived hincoming hlen (hwhole bytes (by rw [hrecv]))
    | data header hpc hgot hsize hgot4 hreceived hshort hlen =>
      rename_i got size len
      simp only [AudioSocketReader.step, hpc, Option.ite_none_right_eq_some] at hs
      simp only [Whole, hpc] at hwhole
      obtain ⟨⟨hne, hlt⟩, hbytes⟩ := hwhole
      obtain ⟨-, hs⟩ := hs
      rcases s.m_socket.Recv_cases env (request size len) with
        ⟨e, m_socket, hrecv, hincoming, -⟩ | ⟨bytes, m_socket, hrecv, -, hincoming, -, hle⟩
      · simp only [hrecv, Option.some.injEq] at hs
        exact hs ▸ h.throws hincoming (decide_eq_false (by omega))
      · simp only [hrecv, Option.some.injEq] at hs
        obtain ⟨hin, hcomplete⟩ := hbytes bytes (by rw [hrecv])
        have hword : size < 2 ^ 32 := hsize ▸ size_lt (hgot ▸ hgot4)
        rw [request_eq hword hlen] at hle
        refine hs ▸ h.put hgot hsize hgot4 hreceived hincoming ?_ hin hcomplete
        omega
    | returned tail hpc => simp [AudioSocketReader.step, hpc] at hs

/-- An error of `recv()` is thrown. -/
theorem Recv_socketError (socket : Socket) {env : SocketEnv} {error : Int}
    (hanswer : env.answer = .socketError error) (bufLen : Nat) (bytes : Bytes) :
    (socket.Recv env bufLen).1 ≠ .ok bytes := by
  unfold Socket.Recv
  split_ifs
  · split
    · nofun
    · rw [hanswer]
      nofun
  · nofun

/-- A call that asks for nothing, or for a negative number of bytes, brings nothing. -/
theorem recv_fails (socket : Socket) {env : SocketEnv} {n : Nat} (hanswers : Answers n env)
    (hn : ¬ (n ≠ 0 ∧ n < 2 ^ 31)) (bytes : Bytes) : (socket.Recv env n).1 ≠ .ok bytes := by
  rcases hanswers with hlt | ⟨error, hanswer⟩
  · have hzero : n = 0 := by omega
    subst hzero
    rcases socket.Recv_cases env 0 with
      ⟨e, m_socket, hrecv, -⟩ | ⟨bytes', m_socket, hrecv, -, -, hne, hle⟩
    · rw [hrecv]
      nofun
    · exact absurd (List.length_eq_zero_iff.mp (Nat.le_zero.mp hle)) hne
  · exact Recv_socketError socket hanswer n bytes

theorem put_delivered (s : AudioSocketReader) {got size len : Nat} {bytes : Bytes}
    (h : len + bytes.length = size) :
    ∃ block : Bytes, block.length = size ∧
      (s.put got size len bytes).delivered = s.delivered ++ [block] := by
  refine ⟨(s.buf.write len bytes).read 0 size, Mem.read_length _ _ _, ?_⟩
  unfold put
  rw [if_pos h]

theorem put_received (s : AudioSocketReader) (got size len : Nat) (bytes : Bytes) :
    (s.put got size len bytes).received = s.received ++ bytes := by
  unfold put
  split_ifs <;> rfl

theorem put_stray (s : AudioSocketReader) (got size len : Nat) (bytes : Bytes) :
    (s.put got size len bytes).stray = (s.stray || decide (1000 < len + bytes.length)) := by
  unfold put
  split_ifs <;> rfl

theorem sends_length_concat (blocks : List Bytes) (block : Bytes) :
    (sends (blocks ++ [block])).length = (sends blocks).length + (4 + block.length) := by
  unfold sends
  rw [wire_append, List.length_append]
  simp [wire, rdpFraming]

/-- **A `Recv` that does not keep the framing** is seen at once. -/
theorem not_framed_of_not_whole (h : Reads blocks s) (hwhole : ¬ s.Whole a)
    (hs : s.step malloc a = some s') : ¬ Framed blocks s' := by
  intro hframed
  cases a with
  | stop => exact hwhole trivial
  | recv env =>
    cases h.stands with
    | size hpc hreceived =>
      simp only [AudioSocketReader.step, hpc] at hs
      simp only [Whole, hpc, not_forall, not_not] at hwhole
      obtain ⟨bytes, hbytes, hlen, hzero⟩ := hwhole
      rcases hrecv : s.m_socket.Recv env 4 with ⟨r, m_socket⟩
      rw [hrecv] at hbytes hs
      dsimp only at hbytes
      subst hbytes
      obtain rfl := Option.some.inj hs
      obtain ⟨tail, htail, hincomplete⟩ := hframed.whole
      dsimp only at htail
      rw [hreceived] at htail
      obtain rfl := List.append_cancel_left htail
      -- an empty block is whole with its size
      have hlt := hincomplete (Nat.le_of_eq hlen.symm)
      have htake : bytes.take rdpFraming.size = bytes := List.take_of_length_le (Nat.le_of_eq hlen)
      rw [htake] at hlt
      have hdec : rdpFraming.dec bytes = 0 := hzero
      rw [hdec, hlen] at hlt
      exact absurd hlt (by decide)
    | data header hpc hgot hsize hgot4 hreceived hshort hlen =>
      rename_i got size len
      simp only [AudioSocketReader.step, hpc, Option.ite_none_right_eq_some] at hs
      obtain ⟨hanswers, hs⟩ := hs
      by_cases hrequest : request size len ≠ 0 ∧ request size len < 2 ^ 31
      · simp only [Whole, hpc, not_and] at hwhole
        have hwhole := hwhole hrequest
        simp only [not_forall] at hwhole
        obtain ⟨bytes, hbytes, hbad⟩ := hwhole
        rcases hrecv : s.m_socket.Recv env (request size len) with ⟨r, m_socket⟩
        rw [hrecv] at hbytes hs
        dsimp only at hbytes
        subst hbytes
        obtain rfl := Option.some.inj hs
        have hstray := hframed.inBuffer
        rw [put_stray, h.inBuffer, Bool.false_or, decide_eq_false_iff_not, Nat.not_lt] at hstray
        have hdone : len + bytes.length = size ∧ got ≠ 4 := by
          by_contra hno
          exact hbad ⟨hstray, fun heq => by_contra fun hne => hno ⟨heq, hne⟩⟩
        obtain ⟨tail, htail, -⟩ := hframed.whole
        obtain ⟨block, hblock, hdelivered⟩ := put_delivered _ hdone.1
        rw [put_received, hdelivered] at htail
        have hlengths := congrArg List.length htail
        simp only [hreceived, List.length_append, sends_length_concat, Mem.read_length, hgot,
          hblock] at hlengths
        omega
      · rcases hrecv : s.m_socket.Recv env (request size len) with ⟨r, m_socket⟩
        rw [hrecv] at hs
        cases r with
        | ok bytes =>
          refine recv_fails s.m_socket hanswers hrequest bytes ?_
          rw [hrecv]
        | error e =>
          obtain rfl := Option.some.inj hs
          have hgoes := hframed.goesOn
          simp only [decide_eq_false_iff_not] at hgoes
          omega
    | returned tail hpc => simp [AudioSocketReader.step, hpc] at hs

/-- **The blocks delivered are the blocks sent**, as far as they were received, in every state of a
run and for every way the stream falls into pieces, exactly when each `Recv` of the run keeps the
framing. -/
theorem framed_iff_whole (malloc : Nat → Mem UInt8) (blocks : List Bytes)
    (hblocks : ∀ b ∈ blocks, b.length < 2 ^ 32) (as : List Action) (s : AudioSocketReader)
    (hrun : run (step malloc) (initial blocks) as = some s) :
    Meets (step malloc) Whole (initial blocks) as ↔
      Along (step malloc) (Framed blocks) (initial blocks) as :=
  meets_iff_along (I := Reads blocks) (p := fun _ => True) (fun _ h => h.framed hblocks)
    (fun _ _ _ h _ hwhole hs => h.step hwhole hs)
    (fun _ _ _ h _ hwhole hs => not_framed_of_not_whole h hwhole hs) (Reads.initial blocks)
    (fun _ _ => trivial) hrun

/-- What was framed all along delivers everything once everything is received. -/
theorem Framed.all (hblocks : ∀ b ∈ blocks, b.length < 2 ^ 32) (h : Framed blocks s)
    (hall : s.received = sends blocks) : s.delivered = blocks := by
  obtain ⟨tail, hreceived, htail⟩ := h.whole
  have hbound (b : Bytes) (hb : b ∈ s.delivered) : b.length < rdpFraming.bound :=
    hblocks b (h.delivered.subset hb)
  have hsplits : Splits rdpFraming (sends blocks) s.delivered tail :=
    ⟨hall ▸ hreceived, hbound, htail⟩
  have hsent : Splits rdpFraming (sends blocks) blocks [] :=
    ⟨by rw [List.append_nil, sends], hblocks, incomplete_nil⟩
  exact (splits_unique hsplits hsent).1

instance {p : Bytes → Prop} [DecidablePred p] (r : Except Exn Bytes) :
    Decidable (∀ bytes, r = .ok bytes → p bytes) :=
  match r with
  | .error _ => .isTrue nofun
  | .ok bytes => decidable_of_iff (p bytes)
      ⟨fun h _ heq => Except.ok.inj heq ▸ h, fun h => h bytes rfl⟩

instance (s : AudioSocketReader) : DecidablePred s.Whole
  | .stop => .isTrue trivial
  | .recv env =>
    match hpc : s.pc with
    | .size => decidable_of_iff (∀ bytes, (s.m_socket.Recv env 4).1 = .ok bytes →
        ¬ (bytes.length = 4 ∧ ofLe bytes = 0)) (by simp only [Whole, hpc])
    | .data got size len => decidable_of_iff
        ((request size len ≠ 0 ∧ request size len < 2 ^ 31) ∧
          ∀ bytes, (s.m_socket.Recv env (request size len)).1 = .ok bytes →
            len + bytes.length ≤ 1000 ∧ (len + bytes.length = size → got = 4))
        (by simp only [Whole, hpc])
    | .returned => .isTrue (by simp only [Whole, hpc])

/-- Two blocks, the first in two pieces. -/
def twoBlocks : List Action :=
  [.recv (.takes 4), .recv (.takes 1), .recv (.takes 9), .recv (.takes 4), .recv (.takes 2), .stop]

theorem framed_iff_whole_two :
    (run (step fun _ _ => 0) (initial [[1, 2, 3], [4, 5]]) twoBlocks).isSome = true ∧
      Along (step fun _ _ => 0) (Framed [[1, 2, 3], [4, 5]]) (initial [[1, 2, 3], [4, 5]]) twoBlocks := by
  have hsome : (run (step fun _ _ => 0) (initial [[1, 2, 3], [4, 5]]) twoBlocks).isSome = true := by
    decide +kernel
  obtain ⟨s, hs⟩ := Option.isSome_iff_exists.mp hsome
  exact ⟨hsome, (framed_iff_whole _ _ (by decide) twoBlocks s hs).mp (by decide +kernel)⟩

/-- The size of a block comes in two pieces: what is delivered begins with the rest of the size. -/
theorem split_size_misframed :
    ¬ ∀ (blocks : List Bytes), (∀ b ∈ blocks, b.length < 2 ^ 32) → ∀ (as : List Action)
      (s : AudioSocketReader), run (step fun _ _ => 0) (initial blocks) as = some s →
      Framed blocks s := by
  intro h
  have hend : (run (step fun _ _ => 0) (initial [[1, 2, 3, 4, 5]])
      [.recv (.takes 1), .recv (.takes 5)]).any (fun s =>
        s.delivered = [[0, 0, 0, 1, 2]]) = true := by
    decide +kernel
  obtain ⟨s, hs, hdelivered⟩ := run_of_any hend
  have hframed := h [[1, 2, 3, 4, 5]] (by decide) _ s hs
  have hprefix := hframed.delivered
  rw [hdelivered] at hprefix
  exact absurd hprefix (by decide)

end AudioSocketReader

end TiraRdp
