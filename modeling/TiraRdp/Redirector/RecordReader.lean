import TiraRdp.Lib.Lts
import TiraRdp.Lib.Memory
import TiraRdp.Utility.Socket

/-!
# The readers of fixed-size records

`HIDSocketReader::Workloop` (`redirector-client/HIDSocketReader.cpp:25-47`),
`TouchAndPenMsgReader::Workloop` (`TouchAndPenMsgReader.cpp:30-58`) and
`ScreenDataChannel::Workloop` (`ScreenDataChannel.cpp:24-46`) are one loop over a `Socket`, a call
of `Recv` a step, with a record and a use for it of their own: `RecordLoop`. The records have the
layout of a Win32 build, the platform of the project files.

Ghost fields: the bytes received; was a byte written past `buf` (`stray`).

Result: in every state of a run the events have been passed the consecutive records of what was
received, in order and unmodified, nothing strays and the next `Recv` asks for at least one byte
(`records_in_order`).
-/

namespace TiraRdp

open Lib Lib.Lts

/-- What a call of an event passes on: the memory behind its pointer, and the other argument. -/
inductive EventCall where
  | OnDataReceivedEvent (data : Bytes)
  | OnTouchFrameReceivedEvent (pointers : Bytes) (count : Int)
  | OnPenFrameReceivedEvent (pointers : Bytes)
  deriving Repr, DecidableEq

/-- What the loops differ in: the size of a record, and what is done with a whole one. -/
structure RecordLoop where
  sizeofRecord : Nat
  handOver : Bytes → Option EventCall
  size_pos : 0 < sizeofRecord
  size_lt : sizeofRecord < 2 ^ 31

/-- `HIDSocketReader::Workloop`. A `HIDDATASTRUCT` is four words. -/
def HIDSocketReader.Workloop (OnDataReceivedEvent : Bool) : RecordLoop where
  sizeofRecord := 16
  handOver := fun buf => if OnDataReceivedEvent then some (.OnDataReceivedEvent buf) else none
  size_pos := by decide
  size_lt := by decide

/-- `ScreenDataChannel::Workloop`. An `RDPGFX_FRAME_ACKNOWLEDGE_PDU` is three words. -/
def ScreenDataChannel.Workloop (OnDataReceivedEvent : Bool) : RecordLoop where
  sizeofRecord := 12
  handOver := fun buf => if OnDataReceivedEvent then some (.OnDataReceivedEvent buf) else none
  size_pos := by decide
  size_lt := by decide

namespace TouchAndPenMsgReader

def PT_TOUCH : Nat := 2

def PT_PEN : Nat := 3

/-- `pointerData.count`. -/
def count (buf : Bytes) : Int := i32 (ofLe (buf.take 4))

/-- `pointerData.pointers`: ten of 88 bytes, behind the padded count. -/
def pointers (buf : Bytes) : Bytes := buf.drop 8

/-- `pointerData.pointers[0].pointerType`. -/
def pointerType (buf : Bytes) : Nat := ofLe ((pointers buf).take 4)

/-- `TouchAndPenMsgReader::Workloop`. -/
def Workloop (OnTouchFrameReceivedEvent OnPenFrameReceivedEvent : Bool) : RecordLoop where
  sizeofRecord := 8 + 10 * 88
  handOver := fun buf =>
    if pointerType buf = PT_TOUCH then
      if OnTouchFrameReceivedEvent then
        some (.OnTouchFrameReceivedEvent (pointers buf) (count buf))
      else none
    else if pointerType buf = PT_PEN then
      if OnPenFrameReceivedEvent then some (.OnPenFrameReceivedEvent (pointers buf)) else none
    else none
  size_pos := by decide
  size_lt := by decide

end TouchAndPenMsgReader

/-- The three readers, by the handlers their events have. -/
inductive RecordReader where
  | HIDSocketReader (OnDataReceivedEvent : Bool)
  | TouchAndPenMsgReader (OnTouchFrameReceivedEvent OnPenFrameReceivedEvent : Bool)
  | ScreenDataChannel (OnDataReceivedEvent : Bool)
  deriving Repr, DecidableEq

def RecordReader.Workloop : RecordReader → RecordLoop
  | HIDSocketReader onData => TiraRdp.HIDSocketReader.Workloop onData
  | TouchAndPenMsgReader onTouch onPen => TiraRdp.TouchAndPenMsgReader.Workloop onTouch onPen
  | ScreenDataChannel onData => TiraRdp.ScreenDataChannel.Workloop onData

namespace RecordLoop

/-- The loop between two calls of `Recv`; `bufpointer` is an offset into `buf`. -/
structure State where
  m_socket : Socket
  returned : Bool
  buf : Mem UInt8
  bufpointer : Nat
  len : Nat
  handedOver : List EventCall
  received : Bytes
  stray : Bool

/-- A started loop, `fresh` being what is in `buf`, and the stream that is, or will be, sent. -/
def initial (fresh : Mem UInt8) (stream : Bytes) : State where
  m_socket := .receiving stream
  returned := false
  buf := fresh
  bufpointer := 0
  len := 0
  handedOver := []
  received := []
  stray := false

inductive Action where
  | recv (env : SocketEnv)
  /-- `CanLoopContinue` answers false -/
  | stop

/-- `min(sizeof(record), sizeof(record) - len)`, on `size_t`s. -/
def request (loop : RecordLoop) (len : Nat) : Nat :=
  min loop.sizeofRecord (subU32 loop.sizeofRecord len)

/-- The bytes of a `Recv` put where `bufpointer` is. -/
def advance (loop : RecordLoop) (s : State) (bytes : Bytes) : State :=
  { s with
    buf := s.buf.write s.bufpointer bytes
    len := s.len + bytes.length
    bufpointer := s.bufpointer + bytes.length
    received := s.received ++ bytes
    stray := s.stray || decide (loop.sizeofRecord < s.bufpointer + bytes.length) }

/-- The record handed over, `buf` cleared and the loop back at its start. -/
def complete (loop : RecordLoop) (s : State) : State :=
  { s with
    handedOver := s.handedOver ++ (loop.handOver (s.buf.read 0 loop.sizeofRecord)).toList
    len := 0
    buf := s.buf.write 0 (List.replicate loop.sizeofRecord 0)
    bufpointer := 0 }

/-- What the loop does with the bytes of a `Recv`. -/
def put (loop : RecordLoop) (s : State) (bytes : Bytes) : State :=
  let t := loop.advance s bytes
  if t.len = loop.sizeofRecord then loop.complete t else t

def step (loop : RecordLoop) (s : State) (a : Action) : Option State :=
  if s.returned then none
  else
    match a with
    | .stop => some { s with returned := true }
    | .recv env =>
      match s.m_socket.Recv env (loop.request s.len) with
      | (.error _, m_socket) => some { s with m_socket, returned := true }
      | (.ok bytes, m_socket) => some (loop.put { s with m_socket } bytes)

/-- The bytes are these records, one behind the other, and less than another one. -/
structure Pieces (size : Nat) (bytes : Bytes) (records : List Bytes) (tail : Bytes) : Prop where
  eq : bytes = records.flatten ++ tail
  whole : ∀ r ∈ records, r.length = size
  short : tail.length < size

/-- The pieces of the beginning of a stream of records are its first records. -/
theorem Pieces.eq_take {size : Nat} {bytes tail : Bytes} {records sent : List Bytes}
    (h : Pieces size bytes records tail) (hsize : 0 < size) (hsent : ∀ r ∈ sent, r.length = size)
    (hbytes : bytes <+: sent.flatten) : records = sent.take (bytes.length / size) := by
  induction records generalizing bytes sent with
  | nil =>
    have hlength : bytes.length / size = 0 := by
      rw [h.eq]
      exact Nat.div_eq_of_lt h.short
    rw [hlength, List.take_zero]
  | cons record records ih =>
    have hrecord := h.whole record List.mem_cons_self
    have heq := h.eq
    rw [List.flatten_cons, List.append_assoc] at heq
    cases sent with
    | nil =>
      have hnil := List.prefix_nil.mp hbytes
      rw [heq] at hnil
      have hlength := congrArg List.length (List.append_eq_nil_iff.mp hnil).1
      rw [hrecord, List.length_nil] at hlength
      exact absurd hlength (Nat.ne_of_gt hsize)
    | cons first sent =>
      obtain ⟨rest, hrest⟩ := hbytes
      rw [heq, List.append_assoc, List.flatten_cons] at hrest
      obtain ⟨rfl, hothers⟩ :=
        List.append_inj hrest (hrecord.trans (hsent first List.mem_cons_self).symm)
      have hpieces : Pieces size (records.flatten ++ tail) records tail :=
        ⟨rfl, fun r hr => h.whole r (List.mem_cons_of_mem _ hr), h.short⟩
      have hlength : bytes.length / size = (records.flatten ++ tail).length / size + 1 := by
        rw [heq, List.length_append, hrecord, Nat.add_div_left _ hsize]
      rw [hlength, List.take_succ_cons]
      exact congrArg _
        (ih hpieces (fun r hr => hsent r (List.mem_cons_of_mem _ hr)) ⟨rest, hothers⟩)

/-- The records of what was received of the stream have been handed over, no others, in order; no
byte was written outside `buf`; the next `Recv` asks for one byte or more, and not past the end. -/
structure Exact (loop : RecordLoop) (stream : Bytes) (s : State) : Prop where
  records : ∃ records tail, Pieces loop.sizeofRecord s.received records tail ∧
    s.handedOver = records.filterMap loop.handOver
  conserved : s.received ++ s.m_socket.incoming = stream
  inBuffer : s.stray = false
  asks : 0 < loop.request s.len
  fits : s.bufpointer + loop.request s.len ≤ loop.sizeofRecord

/-- **The loop invariant.** The pointer stands `len` bytes into `buf`, and these are what was
received since the last record. -/
structure Reads (loop : RecordLoop) (stream : Bytes) (s : State) : Prop where
  pointer : s.bufpointer = s.len
  short : s.len < loop.sizeofRecord
  records : ∃ records, Pieces loop.sizeofRecord s.received records (s.buf.read 0 s.len) ∧
    s.handedOver = records.filterMap loop.handOver
  conserved : s.received ++ s.m_socket.incoming = stream
  inBuffer : s.stray = false

variable {loop : RecordLoop} {stream : Bytes} {s s' : State} {a : Action}

/-- While a record is not complete, the request is what is missing of it. -/
theorem request_eq {len : Nat} (h : len < loop.sizeofRecord) :
    loop.request len = loop.sizeofRecord - len := by
  have hsize := loop.size_lt
  rw [request, subU32_of_le (by omega) (Nat.le_of_lt h)]
  exact Nat.min_eq_right (Nat.sub_le _ _)

theorem Reads.exact (h : Reads loop stream s) : Exact loop stream s := by
  obtain ⟨records, hpieces, hhanded⟩ := h.records
  have hshort := h.short
  have hrequest := request_eq hshort
  have hpointer := h.pointer
  refine ⟨⟨records, _, hpieces, hhanded⟩, h.conserved, h.inBuffer, ?_, ?_⟩
  · omega
  · omega

theorem Reads.initial (loop : RecordLoop) (fresh : Mem UInt8) (stream : Bytes) :
    Reads loop stream (initial fresh stream) where
  pointer := rfl
  short := loop.size_pos
  records := ⟨[], ⟨rfl, nofun, loop.size_pos⟩, rfl⟩
  conserved := rfl
  inBuffer := rfl

/-- A `Recv` that throws, or a loop that is told to stop. -/
theorem Reads.returns (h : Reads loop stream s) {m_socket : Socket}
    (hincoming : m_socket.incoming = s.m_socket.incoming) :
    Reads loop stream { s with m_socket, returned := true } :=
  { h with conserved := by rw [← h.conserved, ← hincoming] }

/-- What a `Recv` puts into `buf` extends what is there of the record. -/
theorem advance_read (loop : RecordLoop) (s : State) (h : s.bufpointer = s.len) (bytes : Bytes) :
    (loop.advance s bytes).buf.read 0 (s.len + bytes.length) = s.buf.read 0 s.len ++ bytes := by
  have happend := Mem.read_write_append s.buf 0 s.len bytes
  rw [Nat.zero_add, ← h] at happend
  show (s.buf.write s.bufpointer bytes).read 0 (s.len + bytes.length) = _
  rw [← h]
  exact happend

/-- Bytes that leave the record incomplete. -/
theorem Reads.advance (h : Reads loop stream s) {m_socket : Socket} {bytes : Bytes}
    (hincoming : s.m_socket.incoming = bytes ++ m_socket.incoming)
    (hlen : s.len + bytes.length < loop.sizeofRecord) :
    Reads loop stream (loop.advance { s with m_socket } bytes) := by
  obtain ⟨records, hpieces, hhanded⟩ := h.records
  have hpointer := h.pointer
  have hread := advance_read loop { s with m_socket } hpointer bytes
  refine ⟨congrArg (· + bytes.length) hpointer, hlen, ⟨records, ⟨?_, hpieces.whole, ?_⟩, hhanded⟩,
    ?_, ?_⟩
  · show s.received ++ bytes = _
    rw [hpieces.eq, List.append_assoc]
    exact congrArg (records.flatten ++ ·) hread.symm
  · rw [Mem.read_length]
    exact hlen
  · show s.received ++ bytes ++ m_socket.incoming = stream
    rw [List.append_assoc, ← hincoming, h.conserved]
  · show (s.stray || decide (loop.sizeofRecord < s.bufpointer + bytes.length)) = false
    rw [h.inBuffer, hpointer, Bool.false_or, decide_eq_false (by omega)]

/-- Bytes that complete the record. -/
theorem Reads.complete (h : Reads loop stream s) {m_socket : Socket} {bytes : Bytes}
    (hincoming : s.m_socket.incoming = bytes ++ m_socket.incoming)
    (hlen : s.len + bytes.length = loop.sizeofRecord) :
    Reads loop stream (loop.complete (loop.advance { s with m_socket } bytes)) := by
  obtain ⟨records, hpieces, hhanded⟩ := h.records
  have hpointer := h.pointer
  have hread := advance_read loop { s with m_socket } hpointer bytes
  rw [show State.len { s with m_socket } = s.len from rfl, hlen] at hread
  generalize hrecord : (loop.advance { s with m_socket } bytes).buf.read 0 loop.sizeofRecord =
    record
    at hread
  refine ⟨rfl, loop.size_pos, ⟨records ++ [record], ⟨?_, ?_, ?_⟩, ?_⟩, ?_, ?_⟩
  · show s.received ++ bytes = (records ++ [record]).flatten ++ []
    rw [List.flatten_append, List.flatten_singleton, List.append_nil, hread, hpieces.eq,
      List.append_assoc]
  · intro r hr
    rcases List.mem_append.mp hr with hr | hr
    · exact hpieces.whole r hr
    · rw [List.mem_singleton.mp hr, ← hrecord, Mem.read_length]
  · exact loop.size_pos
  · show s.handedOver ++ (loop.handOver _).toList = _
    rw [hrecord, hhanded, List.filterMap_append]
    cases hcall : loop.handOver record <;> simp [hcall]
  · show s.received ++ bytes ++ m_socket.incoming = stream
    rw [List.append_assoc, ← hincoming, h.conserved]
  · show (s.stray || decide (loop.sizeofRecord < s.bufpointer + bytes.length)) = false
    rw [h.inBuffer, hpointer, Bool.false_or, decide_eq_false (by omega)]

theorem Reads.put (h : Reads loop stream s) {m_socket : Socket} {bytes : Bytes}
    (hincoming : s.m_socket.incoming = bytes ++ m_socket.incoming)
    (hle : bytes.length ≤ loop.request s.len) :
    Reads loop stream (loop.put { s with m_socket } bytes) := by
  rw [request_eq h.short] at hle
  have hshort := h.short
  unfold RecordLoop.put
  by_cases hdone : (loop.advance { s with m_socket } bytes).len = loop.sizeofRecord
  · rw [if_pos hdone]
    exact h.complete hincoming hdone
  · rw [if_neg hdone]
    have hne : s.len + bytes.length ≠ loop.sizeofRecord := hdone
    exact h.advance hincoming (by omega)

theorem Reads.step (h : Reads loop stream s) (hs : loop.step s a = some s') :
    Reads loop stream s' := by
  unfold RecordLoop.step at hs
  by_cases hreturned : s.returned = true
  · simp [hreturned] at hs
  rw [if_neg hreturned] at hs
  cases a with
  | stop =>
    simp only [Option.some.injEq] at hs
    exact hs ▸ h.returns rfl
  | recv env =>
    rcases s.m_socket.Recv_cases env (loop.request s.len) with
      ⟨e, m_socket, hrecv, hincoming, -⟩ | ⟨bytes, m_socket, hrecv, -, hincoming, -, hle⟩
    · simp only [hrecv, Option.some.injEq] at hs
      exact hs ▸ h.returns hincoming
    · simp only [hrecv, Option.some.injEq] at hs
      exact hs ▸ h.put hincoming hle

theorem step_recv {env : SocketEnv} {bytes : Bytes} {m_socket : Socket}
    (hreturned : s.returned = false)
    (hrecv : s.m_socket.Recv env (loop.request s.len) = (.ok bytes, m_socket)) :
    loop.step s (.recv env) = some (loop.put { s with m_socket } bytes) := by
  unfold RecordLoop.step
  simp only [hreturned, hrecv, Bool.false_eq_true, if_false]

theorem put_received (loop : RecordLoop) (s : State) (bytes : Bytes) :
    (loop.put s bytes).received = s.received ++ bytes := by
  unfold RecordLoop.put
  dsimp only
  split_ifs
  · rfl
  · rfl

/-- A first `Recv` that finds a whole record. -/
theorem recv_record (loop : RecordLoop) (fresh : Mem UInt8)
    (hstream : stream.length = loop.sizeofRecord) :
    ∃ s, loop.step (initial fresh stream) (.recv (.takes loop.sizeofRecord)) = some s ∧
      s.received = stream := by
  have hrequest : loop.request 0 = loop.sizeofRecord := request_eq loop.size_pos
  have htake : stream.take (min loop.sizeofRecord (loop.request 0)) = stream := by
    rw [hrequest, Nat.min_self]
    exact List.take_of_length_le (Nat.le_of_eq hstream)
  have hne : stream ≠ [] := List.ne_nil_of_length_pos (hstream ▸ loop.size_pos)
  have hrecv := Socket.Recv_takes (s := .receiving stream) rfl rfl (htake.symm ▸ hne)
  rw [show (Socket.receiving stream).incoming = stream from rfl, htake] at hrecv
  exact ⟨_, step_recv rfl hrecv, put_received loop _ stream⟩

/-- What has been handed over once the stream has been received. -/
theorem Exact.all (h : Exact loop stream s) (hall : s.m_socket.incoming = []) :
    ∃ records tail, Pieces loop.sizeofRecord stream records tail ∧
      s.handedOver = records.filterMap loop.handOver := by
  have hreceived : s.received = stream := by
    rw [← h.conserved, hall, List.append_nil]
  exact hreceived ▸ h.records

/-- Two `HIDDATASTRUCT`s in three pieces, the second piece across their border. -/
example :
    (run (HIDSocketReader.Workloop true).step (initial (fun _ => 0) (List.range 32 |>.map .ofNat))
      [.recv (.takes 5), .recv (.takes 20), .recv (.takes 16)]).map State.handedOver =
    some [.OnDataReceivedEvent (List.range 16 |>.map .ofNat),
      .OnDataReceivedEvent (List.range' 16 16 |>.map .ofNat)] := by
  decide +kernel

end RecordLoop

open RecordLoop in
/-- **The records arrive as they were sent**, for each of the readers, every stream and every way it
falls into pieces, in every state of a run. -/
theorem RecordReader.records_in_order (reader : RecordReader) (fresh : Mem UInt8) (stream : Bytes)
    (as : List Action) :
    Along reader.Workloop.step (Exact reader.Workloop stream) (initial fresh stream) as :=
  along_of_invariant (I := Reads reader.Workloop stream) (p := fun _ => True) (fun _ h => h.exact)
    (fun _ _ _ h _ hs => h.step hs) (Reads.initial _ fresh stream) (fun _ _ => trivial)

end TiraRdp
