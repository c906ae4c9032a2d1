import TiraRdp.Utility.AsyncWriter

/-!
# A writer and a reader of one `WaitingBuffer`

`WriteTillFinish` and `ReadAtless` of `common/utility/include/WaitingBuffer.h` (`:50-119`) as the
threads of a system, with `CancelRead` and `CancelWrite`, each at any time. `m_WriteMtx` and
`m_ReadMtx` let one call of each in, so a call starts when the one before it has ended. What runs
under `m_BufMtx` is one step; so is a test made without it, a `notify_all`, and the end of a scope.
A thread in a wait goes on when it is notified, or spuriously.

Ghost fields: the bytes that went into the ring and those that came out, with what the first will be
when the write in progress is complete, and what the second were when the read in progress began.

Result: a thread that waits with nothing to wait for has its notification still to come, and the two
never wait at the same time (`wakeup_due`).
-/

namespace TiraRdp

open Lib Lib.Lts

/-- Where the holder of `m_ReadMtx` is in `ReadAtless`. -/
inductive ReadAtlessPc where
  | idle
  | test (r : ReadCall)
  | lock (r : ReadCall)
  | waiting (r : ReadCall)
  | notifyWrite (r : ReadCall)
  | notifyWait (r : ReadCall)
  | leave (r : ReadCall) (thrown : Bool)
  deriving Repr, DecidableEq

/-- `notify_all` on `m_ReadCV`. -/
def ReadAtlessPc.notified : ReadAtlessPc → ReadAtlessPc
  | .waiting r => .test r
  | pc => pc

/-- `atless` is that of the read in progress. -/
structure WaitingBufferThreads where
  m_Buffer : WaitingBuffer
  writer : WriterPc
  reader : ReadAtlessPc
  atless : Nat
  stored : Bytes
  expected : Bytes
  removed : Bytes
  before : Bytes

namespace WaitingBufferThreads

def new (fresh : Mem UInt8) (size : Nat) : WaitingBufferThreads where
  m_Buffer := .new fresh size
  writer := .idle
  reader := .idle
  atless := 0
  stored := []
  expected := []
  removed := []
  before := []

inductive Action where
  | WriteTillFinish (buffer : Bytes)
  | writer
  | wakeWriter
  | ReadAtless (len atless : Nat)
  | reader
  | wakeReader
  | CancelRead
  | CancelWrite
  deriving Repr, DecidableEq

/-- The next step of the writer (`:57-78`). -/
def writerStep (s : WaitingBufferThreads) : Option WaitingBufferThreads :=
  match s.writer with
  | .idle => none
  | .test buffer =>
    if buffer ≠ [] ∧ s.m_Buffer.m_IsCancelWrite = false then some { s with writer := .lock buffer }
    else some { s with writer := .leave buffer false }
  | .lock buffer =>
    if s.m_Buffer.m_IsCancelWrite then some { s with writer := .leave buffer true }
    else if 0 < subU32 s.m_Buffer.m_Size s.m_Buffer.m_DataLen then
      let written := s.m_Buffer.WriteInternal buffer buffer.length
      some { s with
        m_Buffer := written.2
        stored := s.stored ++ buffer.take written.1
        writer := .notify (buffer.drop written.1) }
    else some { s with writer := .waiting buffer }
  | .waiting _ => none
  | .notify buffer => some { s with reader := s.reader.notified, writer := .test buffer }
  | .leave _ _ =>
    some { s with m_Buffer := { s.m_Buffer with m_IsCancelWrite := false }, writer := .idle }

/-- The next step of the reader (`:92-118`). Nobody waits on `m_WaitCV`. -/
def readerStep (s : WaitingBufferThreads) : Option WaitingBufferThreads :=
  match s.reader with
  | .idle => none
  | .test r =>
    if i32 r.readCount < i32 s.atless then some { s with reader := .lock r }
    else some { s with reader := .leave r false }
  | .lock r =>
    if s.m_Buffer.m_IsCancelRead then some { s with reader := .leave r true }
    else if 0 < s.m_Buffer.m_DataLen then
      let taken := s.m_Buffer.ReadInternal r.len
      some { s with
        m_Buffer := taken.2.2
        removed := s.removed ++ taken.1
        reader := .notifyWrite
          ⟨r.buffer ++ taken.1, u32 (r.readCount + taken.2.1), subU32 r.len taken.2.1⟩ }
    else some { s with reader := .waiting r }
  | .waiting _ => none
  | .notifyWrite r => some { s with writer := s.writer.notified, reader := .notifyWait r }
  | .notifyWait r => some { s with reader := .test r }
  | .leave _ _ =>
    some { s with m_Buffer := { s.m_Buffer with m_IsCancelRead := false }, reader := .idle }

def step (s : WaitingBufferThreads) : Action → Option WaitingBufferThreads
  | .WriteTillFinish buffer =>
    -- `len` is an `unsigned int`
    if s.writer = .idle ∧ buffer.length < 2 ^ 32 then
      some { s with writer := .test buffer, expected := s.stored ++ buffer }
    else none
  | .writer => s.writerStep
  | .wakeWriter => some { s with writer := s.writer.notified }
  | .ReadAtless len atless =>
    if s.reader = .idle ∧ len < 2 ^ 32 ∧ atless < 2 ^ 32 then
      some { s with reader := .test ⟨[], 0, len⟩, atless, before := s.removed }
    else none
  | .reader => s.readerStep
  | .wakeReader => some { s with reader := s.reader.notified }
  | .CancelRead => some { s with m_Buffer := s.m_Buffer.CancelRead, reader := s.reader.notified }
  | .CancelWrite => some { s with m_Buffer := s.m_Buffer.CancelWrite, writer := s.writer.notified }

/-! ## What a step can be -/

inductive Moves (s : WaitingBufferThreads) : Action → WaitingBufferThreads → Prop
  | WriteTillFinish (buffer : Bytes) (hpc : s.writer = .idle) :
    Moves s (.WriteTillFinish buffer) { s with writer := .test buffer, expected := s.stored ++ buffer }
  | writesOn (buffer : Bytes) (hpc : s.writer = .test buffer) (hne : buffer ≠ [])
      (hflag : s.m_Buffer.m_IsCancelWrite = false) :
        Moves s .writer { s with writer := .lock buffer }
  | writeEnds (buffer : Bytes) (hpc : s.writer = .test buffer)
      (hend : buffer ≠ [] → s.m_Buffer.m_IsCancelWrite = true) :
    Moves s .writer { s with writer := .leave buffer false }
  | writeThrows (buffer : Bytes) (hpc : s.writer = .lock buffer)
      (hflag : s.m_Buffer.m_IsCancelWrite = true) :
    Moves s .writer { s with writer := .leave buffer true }
  | stores (buffer : Bytes) (hpc : s.writer = .lock buffer)
      (hflag : s.m_Buffer.m_IsCancelWrite = false)
      (hroom : 0 < subU32 s.m_Buffer.m_Size s.m_Buffer.m_DataLen) :
    Moves s .writer { s with
      m_Buffer := (s.m_Buffer.WriteInternal buffer buffer.length).2
      stored := s.stored ++ buffer.take (s.m_Buffer.writeLen buffer.length)
      writer := .notify (buffer.drop (s.m_Buffer.writeLen buffer.length)) }
  | writerWaits (buffer : Bytes) (hpc : s.writer = .lock buffer)
      (hflag : s.m_Buffer.m_IsCancelWrite = false)
      (hfull : ¬ 0 < subU32 s.m_Buffer.m_Size s.m_Buffer.m_DataLen) :
    Moves s .writer { s with writer := .waiting buffer }
  | notifiesReader (buffer : Bytes) (hpc : s.writer = .notify buffer) :
    Moves s .writer { s with reader := s.reader.notified, writer := .test buffer }
  | writerLeaves (buffer : Bytes) (thrown : Bool) (hpc : s.writer = .leave buffer thrown) :
    Moves s .writer { s with
      m_Buffer := { s.m_Buffer with m_IsCancelWrite := false }
      writer := .idle }
  | wakeWriter : Moves s .wakeWriter { s with writer := s.writer.notified }
  | ReadAtless (len atless : Nat) (hpc : s.reader = .idle) :
    Moves s (.ReadAtless len atless)
      { s with reader := .test ⟨[], 0, len⟩, atless, before := s.removed }
  | readsOn (r : ReadCall) (hpc : s.reader = .test r) : Moves s .reader { s with reader := .lock r }
  | readEnds (r : ReadCall) (hpc : s.reader = .test r) :
    Moves s .reader { s with reader := .leave r false }
  | readThrows (r : ReadCall) (hpc : s.reader = .lock r) (hflag : s.m_Buffer.m_IsCancelRead = true) :
    Moves s .reader { s with reader := .leave r true }
  | takes (r : ReadCall) (hpc : s.reader = .lock r) (hflag : s.m_Buffer.m_IsCancelRead = false)
      (hdata : 0 < s.m_Buffer.m_DataLen) :
    Moves s .reader { s with
      m_Buffer := (s.m_Buffer.ReadInternal r.len).2.2
      removed := s.removed ++ (s.m_Buffer.ReadInternal r.len).1
      reader := .notifyWrite ⟨r.buffer ++ (s.m_Buffer.ReadInternal r.len).1,
        u32 (r.readCount + s.m_Buffer.readLen r.len), subU32 r.len (s.m_Buffer.readLen r.len)⟩ }
  | readerWaits (r : ReadCall) (hpc : s.reader = .lock r) (hflag : s.m_Buffer.m_IsCancelRead = false)
      (hnone : ¬ 0 < s.m_Buffer.m_DataLen) :
    Moves s .reader { s with reader := .waiting r }
  | notifiesWriter (r : ReadCall) (hpc : s.reader = .notifyWrite r) :
    Moves s .reader { s with writer := s.writer.notified, reader := .notifyWait r }
  | notifiesWait (r : ReadCall) (hpc : s.reader = .notifyWait r) :
    Moves s .reader { s with reader := .test r }
  | readerLeaves (r : ReadCall) (thrown : Bool) (hpc : s.reader = .leave r thrown) :
    Moves s .reader { s with
      m_Buffer := { s.m_Buffer with m_IsCancelRead := false }
      reader := .idle }
  | wakeReader : Moves s .wakeReader { s with reader := s.reader.notified }
  | CancelRead :
    Moves s .CancelRead { s with m_Buffer := s.m_Buffer.CancelRead, reader := s.reader.notified }
  | CancelWrite :
    Moves s .CancelWrite { s with m_Buffer := s.m_Buffer.CancelWrite, writer := s.writer.notified }

theorem writerStep_moves {s s' : WaitingBufferThreads} (hs : s.writerStep = some s') :
    Moves s .writer s' := by
  unfold writerStep at hs
  cases hpc : s.writer with
  | test buffer =>
    by_cases hloop : buffer ≠ [] ∧ s.m_Buffer.m_IsCancelWrite = false
    · simp only [hpc, if_pos hloop, Option.some.injEq] at hs
      exact hs ▸ .writesOn buffer hpc hloop.1 hloop.2
    · simp only [hpc, if_neg hloop, Option.some.injEq] at hs
      refine hs ▸ .writeEnds buffer hpc ?_
      intro hne
      by_contra hflag
      exact hloop ⟨hne, Bool.eq_false_iff.mpr hflag⟩
  | lock buffer =>
    by_cases hflag : s.m_Buffer.m_IsCancelWrite = true
    · simp only [hpc, if_pos hflag, Option.some.injEq] at hs
      exact hs ▸ .writeThrows buffer hpc hflag
    · simp only [hpc, if_neg hflag] at hs
      by_cases hroom : 0 < subU32 s.m_Buffer.m_Size s.m_Buffer.m_DataLen
      · simp only [if_pos hroom, Option.some.injEq] at hs
        exact hs ▸ .stores buffer hpc (Bool.eq_false_iff.mpr hflag) hroom
      · simp only [if_neg hroom, Option.some.injEq] at hs
        exact hs ▸ .writerWaits buffer hpc (Bool.eq_false_iff.mpr hflag) hroom
  | notify buffer =>
    simp only [hpc, Option.some.injEq] at hs
    exact hs ▸ .notifiesReader buffer hpc
  | leave buffer thrown =>
    simp only [hpc, Option.some.injEq] at hs
    exact hs ▸ .writerLeaves buffer thrown hpc
  | _ => simp [hpc] at hs

theorem readerStep_moves {s s' : WaitingBufferThreads} (hs : s.readerStep = some s') :
    Moves s .reader s' := by
  unfold readerStep at hs
  cases hpc : s.reader with
  | test r =>
    by_cases hloop : i32 r.readCount < i32 s.atless
    · simp only [hpc, if_pos hloop, Option.some.injEq] at hs
      exact hs ▸ .readsOn r hpc
    · simp only [hpc, if_neg hloop, Option.some.injEq] at hs
      exact hs ▸ .readEnds r hpc
  | lock r =>
    by_cases hflag : s.m_Buffer.m_IsCancelRead = true
    · simp only [hpc, if_pos hflag, Option.some.injEq] at hs
      exact hs ▸ .readThrows r hpc hflag
    · simp only [hpc, if_neg hflag] at hs
      by_cases hdata : 0 < s.m_Buffer.m_DataLen
      · simp only [if_pos hdata, Option.some.injEq] at hs
        exact hs ▸ .takes r hpc (Bool.eq_false_iff.mpr hflag) hdata
      · simp only [if_neg hdata, Option.some.injEq] at hs
        exact hs ▸ .readerWaits r hpc (Bool.eq_false_iff.mpr hflag) hdata
  | notifyWrite r =>
    simp only [hpc, Option.some.injEq] at hs
    exact hs ▸ .notifiesWriter r hpc
  | notifyWait r =>
    simp only [hpc, Option.some.injEq] at hs
    exact hs ▸ .notifiesWait r hpc
  | leave r thrown =>
    simp only [hpc, Option.some.injEq] at hs
    exact hs ▸ .readerLeaves r thrown hpc
  | _ => simp [hpc] at hs

theorem step_moves {s s' : WaitingBufferThreads} {a : Action} (hs : step s a = some s') :
    Moves s a s' := by
  unfold step at hs
  cases a with
  | WriteTillFinish buffer =>
    simp only [Option.ite_none_right_eq_some, Option.some.injEq] at hs
    exact hs.2 ▸ .WriteTillFinish buffer hs.1.1
  | writer => exact writerStep_moves hs
  | wakeWriter => exact Option.some.inj hs ▸ .wakeWriter
  | ReadAtless len atless =>
    simp only [Option.ite_none_right_eq_some, Option.some.injEq] at hs
    exact hs.2 ▸ .ReadAtless len atless hs.1.1
  | reader => exact readerStep_moves hs
  | wakeReader => exact Option.some.inj hs ▸ .wakeReader
  | CancelRead => exact Option.some.inj hs ▸ .CancelRead
  | CancelWrite => exact Option.some.inj hs ▸ .CancelWrite

/-! ## Wake-ups -/

end WaitingBufferThreads

theorem WriterPc.notified_ne_waiting (pc : WriterPc) (buffer : Bytes) :
    pc.notified ≠ .waiting buffer := by
  cases pc <;> nofun

theorem ReadAtlessPc.notified_ne_waiting (pc : ReadAtlessPc) (r : ReadCall) :
    pc.notified ≠ .waiting r := by
  cases pc <;> nofun

/-- A notification reaches nobody who is about to notify. -/
theorem WriterPc.notified_eq_notify {pc : WriterPc} {buffer : Bytes} (h : pc = .notify buffer) :
    pc.notified = .notify buffer := by
  rw [h]
  rfl

theorem ReadAtlessPc.notified_eq_notifyWrite {pc : ReadAtlessPc} {r : ReadCall}
    (h : pc = .notifyWrite r) : pc.notified = .notifyWrite r := by
  rw [h]
  rfl

namespace WaitingBufferThreads

variable {s s' : WaitingBufferThreads} {a : Action}

/-- A blocked thread that could go on has its notification still to come, the next step of the other
thread; and the two are not blocked at the same time. -/
structure WakeupDue (s : WaitingBufferThreads) : Prop where
  writer : ∀ buffer, s.writer = .waiting buffer → s.m_Buffer.m_DataLen < s.m_Buffer.m_Size →
    (∃ r, s.reader = .notifyWrite r) ∧ ∃ t, step s .reader = some t ∧ t.writer = .test buffer
  reader : ∀ r, s.reader = .waiting r → 0 < s.m_Buffer.m_DataLen →
    (∃ buffer, s.writer = .notify buffer) ∧ ∃ t, step s .writer = some t ∧ t.reader = .test r
  notBoth : ∀ buffer r, ¬ (s.writer = .waiting buffer ∧ s.reader = .waiting r)

/-- **The invariant**, over both program counters. -/
structure Awake (s : WaitingBufferThreads) : Prop where
  size_pos : 0 < s.m_Buffer.m_Size
  size_lt : s.m_Buffer.m_Size < 2 ^ 32
  dataLen_le : s.m_Buffer.m_DataLen ≤ s.m_Buffer.m_Size
  writer : ∀ buffer, s.writer = .waiting buffer → s.m_Buffer.m_DataLen < s.m_Buffer.m_Size →
    ∃ r, s.reader = .notifyWrite r
  reader : ∀ r, s.reader = .waiting r → 0 < s.m_Buffer.m_DataLen →
    ∃ buffer, s.writer = .notify buffer

theorem Awake.wakeupDue (h : s.Awake) : s.WakeupDue where
  writer := by
    intro buffer hwaits hroom
    obtain ⟨r, hr⟩ := h.writer buffer hwaits hroom
    refine ⟨⟨r, hr⟩, { s with writer := s.writer.notified, reader := .notifyWait r }, ?_, ?_⟩
    · simp only [step, readerStep, hr]
    · show s.writer.notified = .test buffer
      rw [hwaits]
      rfl
  reader := by
    intro r hwaits hdata
    obtain ⟨buffer, hb⟩ := h.reader r hwaits hdata
    refine ⟨⟨buffer, hb⟩, { s with reader := s.reader.notified, writer := .test buffer }, ?_, ?_⟩
    · simp only [step, writerStep, hb]
    · show s.reader.notified = .test r
      rw [hwaits]
      rfl
  notBoth := by
    rintro buffer r ⟨hwriter, hreader⟩
    -- a writer waits beside a reader at its wait only for a full ring, which holds data
    have hfull : ¬ s.m_Buffer.m_DataLen < s.m_Buffer.m_Size := by
      intro hroom
      obtain ⟨r', hr'⟩ := h.writer buffer hwriter hroom
      rw [hreader] at hr'
      cases hr'
    have hdata : 0 < s.m_Buffer.m_DataLen := Nat.lt_of_lt_of_le h.size_pos (Nat.not_lt.mp hfull)
    obtain ⟨buffer', hb'⟩ := h.reader r hreader hdata
    rw [hwriter] at hb'
    cases hb'

theorem new_awake (fresh : Mem UInt8) {size : Nat} (h0 : 0 < size) (hsize : size < 2 ^ 32) :
    (new fresh size).Awake :=
  ⟨h0, hsize, Nat.zero_le _, nofun, nofun⟩

/-- The count of a write stays within the ring, whatever its index sums do. -/
theorem Awake.write_dataLen_le (h : s.Awake) (buffer : Bytes) :
    (s.m_Buffer.WriteInternal buffer buffer.length).2.m_DataLen ≤ s.m_Buffer.m_Size := by
  have hle := h.dataLen_le
  have hlt := h.size_lt
  have hlen : s.m_Buffer.writeLen buffer.length ≤ s.m_Buffer.m_Size - s.m_Buffer.m_DataLen := by
    unfold WaitingBuffer.writeLen
    rw [subU32_of_le hlt hle]
    exact Nat.min_le_left _ _
  show u32 (s.m_Buffer.m_DataLen + s.m_Buffer.writeLen buffer.length) ≤ s.m_Buffer.m_Size
  rw [u32_of_lt (by omega)]
  omega

/-- Likewise for a read. -/
theorem Awake.read_dataLen_le (h : s.Awake) (len : Nat) :
    (s.m_Buffer.ReadInternal len).2.2.m_DataLen ≤ s.m_Buffer.m_Size := by
  have hle := h.dataLen_le
  have hlt := h.size_lt
  have hlen : s.m_Buffer.readLen len ≤ s.m_Buffer.m_DataLen := Nat.min_le_left _ _
  show subU32 s.m_Buffer.m_DataLen (s.m_Buffer.readLen len) ≤ s.m_Buffer.m_Size
  rw [subU32_of_le (by omega) hlen]
  omega

/-- Beside a writer that is not about to notify, a reader waits for an empty ring only. -/
theorem Awake.no_data (h : s.Awake) (hpc : ∀ buffer, s.writer ≠ .notify buffer) {r : ReadCall}
    (hr : s.reader = .waiting r) : ¬ 0 < s.m_Buffer.m_DataLen := by
  intro hdata
  obtain ⟨buffer, hb⟩ := h.reader r hr hdata
  exact hpc buffer hb

/-- Beside a reader that is not about to notify, a writer waits for a full ring only. -/
theorem Awake.no_room (h : s.Awake) (hpc : ∀ r, s.reader ≠ .notifyWrite r) {buffer : Bytes}
    (hb : s.writer = .waiting buffer) : ¬ s.m_Buffer.m_DataLen < s.m_Buffer.m_Size := by
  intro hroom
  obtain ⟨r, hr⟩ := h.writer buffer hb hroom
  exact hpc r hr

/-- **One step** keeps the invariant. -/
theorem Awake.step (h : s.Awake) (hs : step s a = some s') : s'.Awake := by
  cases step_moves hs with
  | WriteTillFinish _ hpc | writesOn _ hpc | writeEnds _ hpc | writeThrows _ hpc
  | writerLeaves _ _ hpc =>
    have hbusy : ∀ buffer, s.writer ≠ .notify buffer := by rw [hpc]; nofun
    exact { h with writer := nofun, reader := fun r hr hdata => absurd hdata (h.no_data hbusy hr) }
  | stores buffer hpc hflag hroom =>
    have hframe := s.m_Buffer.WriteInternal_frame buffer buffer.length
    exact {
      size_pos := hframe.size ▸ h.size_pos
      size_lt := hframe.size ▸ h.size_lt
      dataLen_le := hframe.size ▸ h.write_dataLen_le buffer
      writer := nofun
      reader := fun r hr hdata => ⟨_, rfl⟩ }
  | writerWaits buffer hpc hflag hfull =>
    have hbusy : ∀ buffer, s.writer ≠ .notify buffer := by rw [hpc]; nofun
    refine { h with
      writer := fun buffer' hb hroom => ?_
      reader := fun r hr hdata => absurd hdata (h.no_data hbusy hr) }
    rw [subU32_of_le h.size_lt h.dataLen_le] at hfull
    exact absurd (Nat.sub_pos_of_lt hroom) hfull
  | notifiesReader buffer hpc =>
    exact { h with
      writer := nofun
      reader := fun r hr hdata => absurd hr (ReadAtlessPc.notified_ne_waiting s.reader r) }
  | wakeWriter | CancelWrite =>
    refine { h with
      writer := fun buffer hb hroom => absurd hb (WriterPc.notified_ne_waiting s.writer buffer)
      reader := fun r hr hdata => ?_ }
    obtain ⟨buffer, hb⟩ := h.reader r hr hdata
    exact ⟨buffer, WriterPc.notified_eq_notify hb⟩
  | ReadAtless _ _ hpc | readsOn _ hpc | readEnds _ hpc | readThrows _ hpc | notifiesWait _ hpc
  | readerLeaves _ _ hpc =>
    have hbusy : ∀ r, s.reader ≠ .notifyWrite r := by rw [hpc]; nofun
    exact { h with writer := fun buffer hb hroom => absurd hroom (h.no_room hbusy hb), reader := nofun }
  | takes r hpc hflag hdata =>
    have hframe := s.m_Buffer.ReadInternal_frame r.len
    exact {
      size_pos := hframe.size ▸ h.size_pos
      size_lt := hframe.size ▸ h.size_lt
      dataLen_le := hframe.size ▸ h.read_dataLen_le r.len
      writer := fun buffer hb hroom => ⟨_, rfl⟩
      reader := nofun }
  | readerWaits r hpc hflag hnone =>
    have hbusy : ∀ r, s.reader ≠ .notifyWrite r := by rw [hpc]; nofun
    exact { h with
      writer := fun buffer hb hroom => absurd hroom (h.no_room hbusy hb)
      reader := fun r' hr hdata => absurd hdata hnone }
  | notifiesWriter r hpc =>
    exact { h with
      writer := fun buffer hb hroom => absurd hb (WriterPc.notified_ne_waiting s.writer buffer)
      reader := nofun }
  | wakeReader | CancelRead =>
    refine { h with
      writer := fun buffer hb hroom => ?_
      reader := fun r hr hdata => absurd hr (ReadAtlessPc.notified_ne_waiting s.reader r) }
    obtain ⟨r, hr⟩ := h.writer buffer hb hroom
    exact ⟨r, ReadAtlessPc.notified_eq_notifyWrite hr⟩

/-- **No lost wake-up**: in every state of every run, for every size of the ring, a writer blocked
with free space or a reader blocked with data available is about to be notified by the other side,
and the two are never blocked together. -/
theorem wakeup_due (fresh : Mem UInt8) {size : Nat} (h0 : 0 < size) (hsize : size < 2 ^ 32)
    (as : List Action) : Along step WakeupDue (new fresh size) as :=
  along_of_invariant (p := fun _ => True) (fun _ h => h.wakeupDue) (fun _ _ _ h _ hs => h.step hs)
    (new_awake fresh h0 hsize) fun _ _ => trivial

/-- Three bytes through a ring of one: both threads block in turn, and the reader has just made room
for the writer. -/
def handOver : List Action :=
  [.ReadAtless 3 3, .reader, .reader, .WriteTillFinish [1, 2, 3], .writer, .writer, .writer, .writer,
    .writer, .reader, .reader]

theorem wakeup_due_hand_over :
    (∃ s, run step (new (fun _ => 0) 1) handOver = some s ∧
      s.writer = .waiting [2, 3] ∧ s.m_Buffer.m_DataLen < s.m_Buffer.m_Size) ∧
    Along step WakeupDue (new (fun _ => 0) 1) handOver := by
  have hend : (run step (new (fun _ => 0) 1) handOver).any (fun s =>
      s.writer = .waiting [2, 3] ∧ s.m_Buffer.m_DataLen < s.m_Buffer.m_Size) = true := by decide
  obtain ⟨s, hs, hblocked⟩ := run_of_any hend
  exact ⟨⟨s, hs, hblocked⟩, wakeup_due (fun _ => 0) (by decide) (by decide) handOver⟩

end WaitingBufferThreads

end TiraRdp
