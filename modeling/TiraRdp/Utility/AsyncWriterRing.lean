import TiraRdp.Utility.WaitingBufferThreads

/-!
# The ring of an `AsyncWriter`

`AsyncWriter` runs `WriteTillFinish` and `ReadAtless` of its `WaitingBuffer` among other things: the
holder of `m_WriteMtx` is the writer of the ring, and the worker, where it is in `ReadAtless`, its
reader. Seen so, a run of an `AsyncWriter` is a run of `WaitingBufferThreads` (`shows_simulates`),
and what holds of the two threads of the ring holds of an `AsyncWriter` with all its callers and
cancels: a thread blocked on the ring that could go on is about to be notified (`ring_awake`), so a
writer left behind by the worker is blocked on a full ring (`RingAwake.full`).
-/

namespace TiraRdp

open Lib Lib.Lts

/-- Where the worker is in `ReadAtless`. -/
def WorkerPc.reader : WorkerPc → ReadAtlessPc
  | .test r => .test r
  | .lock r => .lock r
  | .waiting r => .waiting r
  | .notifyWrite r => .notifyWrite r
  | .notifyWait r => .notifyWait r
  | .leave r thrown => .leave r thrown
  | .canLoop => .idle
  | .deliver _ => .idle
  | .catching _ => .idle
  | .ended => .idle

theorem WorkerPc.reader_notified (pc : WorkerPc) : pc.notified.reader = pc.reader.notified := by
  cases pc <;> rfl

/-- Only a worker that is about to notify is shown so. -/
theorem WorkerPc.eq_notifyWrite {pc : WorkerPc} {r : ReadCall} (h : pc.reader = .notifyWrite r) :
    pc = .notifyWrite r := by
  cases pc with
  | notifyWrite r' => exact congrArg WorkerPc.notifyWrite (ReadAtlessPc.notifyWrite.inj h)
  | _ => cases h

namespace WaitingBuffer

/-- The ring without its waiters. -/
def unwaited (w : WaitingBuffer) : WaitingBuffer := { w with m_IsCancelWait := false }

variable (w : WaitingBuffer)

theorem putIn_unwaited (buffer : Bytes) (n : Nat) :
    w.unwaited.putIn buffer n = (w.putIn buffer n).unwaited := by
  unfold putIn
  by_cases hone : u32 (w.m_End + n) ≤ w.m_Size
  · rw [if_pos hone, if_pos (show u32 (w.unwaited.m_End + n) ≤ w.unwaited.m_Size from hone)]
    rfl
  · rw [if_neg hone, if_neg (show ¬ u32 (w.unwaited.m_End + n) ≤ w.unwaited.m_Size from hone)]
    rfl

theorem takeOut_unwaited (n : Nat) :
    w.unwaited.takeOut n = ((w.takeOut n).1, (w.takeOut n).2.unwaited) := by
  unfold takeOut
  by_cases hone : u32 (w.m_Start + n) ≤ w.m_Size
  · rw [if_pos hone, if_pos (show u32 (w.unwaited.m_Start + n) ≤ w.unwaited.m_Size from hone)]
    rfl
  · rw [if_neg hone, if_neg (show ¬ u32 (w.unwaited.m_Start + n) ≤ w.unwaited.m_Size from hone)]
    rfl

/-- A write touches the same cells whoever waits. -/
theorem WriteInternal_unwaited (buffer : Bytes) (len : Nat) :
    w.unwaited.WriteInternal buffer len =
      (w.writeLen len, (w.WriteInternal buffer len).2.unwaited) := by
  unfold WriteInternal
  rw [putIn_unwaited]
  rfl

theorem ReadInternal_unwaited (len : Nat) :
    w.unwaited.ReadInternal len =
      ((w.ReadInternal len).1, w.readLen len, (w.ReadInternal len).2.2.unwaited) := by
  unfold ReadInternal
  rw [takeOut_unwaited]
  rfl

end WaitingBuffer

namespace AsyncWriter

/-- The two threads of the ring in a state of the whole. -/
structure Shows (s : AsyncWriter) (u : WaitingBufferThreads) : Prop where
  m_Buffer : u.m_Buffer = s.m_Buffer.unwaited
  writer : u.writer = s.writer
  reader : u.reader = s.worker.reader
  atless : u.reader ≠ .idle → u.atless = s.m_MinSize
  max_lt : s.m_MaxSize < 2 ^ 32
  min_lt : s.m_MinSize < 2 ^ 32
  queued : ∀ buffer ∈ s.queued, buffer.length < 2 ^ 31

variable {s t : AsyncWriter} {u : WaitingBufferThreads} {a : Action}

/-- The ring's threads come, by one step or none, to a state that shows the next state of the
whole. -/
def Follows (u : WaitingBufferThreads) (t : AsyncWriter) : Prop :=
  ∃ bs v, run WaitingBufferThreads.step u bs = some v ∧ t.Shows v

theorem Shows.still (h : t.Shows u) : Follows u t := ⟨[], u, rfl, h⟩

theorem Shows.next {b : WaitingBufferThreads.Action} {v : WaitingBufferThreads}
    (hb : WaitingBufferThreads.step u b = some v) (h : t.Shows v) : Follows u t :=
  ⟨[b], v, run_singleton.trans hb, h⟩

theorem Shows.notifyReader (h : s.Shows u) :
    Shows { s with worker := s.worker.notified } { u with reader := u.reader.notified } := by
  refine { h with reader := ?_, atless := fun hne => h.atless fun hidle => hne ?_ }
  · show u.reader.notified = s.worker.notified.reader
    rw [h.reader, WorkerPc.reader_notified]
  · show u.reader.notified = .idle
    rw [hidle]
    rfl

theorem Shows.notifyWriter (h : s.Shows u) :
    Shows { s with writer := s.writer.notified } { u with writer := u.writer.notified } :=
  { h with writer := congrArg WriterPc.notified h.writer }

/-- The ring's writer is where the holder of `m_WriteMtx` is. -/
theorem Shows.writerStep_eq (h : s.Shows u) {pc : WriterPc} (hpc : s.writer = pc) :
    WaitingBufferThreads.step u .writer =
      WaitingBufferThreads.writerStep { u with writer := pc } := by
  rw [← hpc, ← h.writer]
  rfl

/-- The ring's reader is where the worker is in `ReadAtless`. -/
theorem Shows.readerStep_eq (h : s.Shows u) {pc : WorkerPc} (hpc : s.worker = pc) :
    WaitingBufferThreads.step u .reader =
      WaitingBufferThreads.readerStep { u with reader := pc.reader } := by
  rw [← hpc, ← h.reader]
  rfl

/-- The ring's reader asks for what the worker asks for, as long as that is in `ReadAtless`. -/
theorem Shows.atless_eq (h : s.Shows u) {pc : WorkerPc} (hpc : s.worker = pc)
    (hbusy : pc.reader ≠ .idle) : u.atless = s.m_MinSize :=
  h.atless (by rwa [h.reader, hpc])

/-- The writer's steps are those of the ring's writer. -/
theorem Shows.writer_follows (h : s.Shows u) (hm : Moves s .writer t) : Follows u t := by
  have hflag : u.m_Buffer.m_IsCancelWrite = s.m_Buffer.m_IsCancelWrite := by rw [h.m_Buffer]; rfl
  have hroom : subU32 u.m_Buffer.m_Size u.m_Buffer.m_DataLen =
      subU32 s.m_Buffer.m_Size s.m_Buffer.m_DataLen := by rw [h.m_Buffer]; rfl
  cases hm with
  | writesOn buffer hpc hne hclear =>
    have hgo : buffer ≠ [] ∧ u.m_Buffer.m_IsCancelWrite = false := ⟨hne, hflag.trans hclear⟩
    exact Shows.next ((h.writerStep_eq hpc).trans (if_pos hgo)) { h with writer := rfl }
  | writeEnds buffer hpc hend =>
    have hstop : ¬ (buffer ≠ [] ∧ u.m_Buffer.m_IsCancelWrite = false) := by
      rintro ⟨hne, hclear⟩
      rw [hflag, hend hne] at hclear
      cases hclear
    exact Shows.next ((h.writerStep_eq hpc).trans (if_neg hstop)) { h with writer := rfl }
  | writeThrows buffer hpc hset =>
    exact Shows.next ((h.writerStep_eq hpc).trans (if_pos (hflag.trans hset)))
      { h with writer := rfl }
  | stores buffer hpc hfree hclear =>
    have hgo : ¬ u.m_Buffer.m_IsCancelWrite = true := by
      rw [hflag, hclear]
      exact Bool.false_ne_true
    have hfree' : 0 < subU32 u.m_Buffer.m_Size u.m_Buffer.m_DataLen := by rw [hroom]; exact hfree
    refine Shows.next ((h.writerStep_eq hpc).trans ((if_neg hgo).trans (if_pos hfree'))) ?_
    refine { h with m_Buffer := ?_, writer := ?_ }
    · show (u.m_Buffer.WriteInternal buffer buffer.length).2 = _
      rw [h.m_Buffer, WaitingBuffer.WriteInternal_unwaited]
    · show WriterPc.notify (buffer.drop (u.m_Buffer.WriteInternal buffer buffer.length).1) = _
      rw [h.m_Buffer, WaitingBuffer.WriteInternal_unwaited]
  | writerWaits buffer hpc hclear hfull =>
    have hgo : ¬ u.m_Buffer.m_IsCancelWrite = true := by
      rw [hflag, hclear]
      exact Bool.false_ne_true
    have hfull' : ¬ 0 < subU32 u.m_Buffer.m_Size u.m_Buffer.m_DataLen := by rw [hroom]; exact hfull
    exact Shows.next ((h.writerStep_eq hpc).trans ((if_neg hgo).trans (if_neg hfull')))
      { h with writer := rfl }
  | notifiesRead buffer hpc =>
    exact Shows.next (h.writerStep_eq hpc) { h.notifyReader with writer := rfl }
  | writerLeaves buffer thrown hpc =>
    refine Shows.next (h.writerStep_eq hpc) { h with m_Buffer := ?_, writer := rfl }
    show { u.m_Buffer with m_IsCancelWrite := false } = _
    rw [h.m_Buffer]
    rfl

/-- The worker's steps in `ReadAtless` are those of the ring's reader. -/
theorem Shows.worker_follows (h : s.Shows u) (hm : Moves s .worker t) : Follows u t := by
  have hflag : u.m_Buffer.m_IsCancelRead = s.m_Buffer.m_IsCancelRead := by rw [h.m_Buffer]; rfl
  have hlen : u.m_Buffer.m_DataLen = s.m_Buffer.m_DataLen := by rw [h.m_Buffer]; rfl
  cases hm with
  | loops hpc hgo =>
    have hidle : u.reader = .idle := by rw [h.reader, hpc]; rfl
    have hcall : u.reader = .idle ∧ s.m_MaxSize < 2 ^ 32 ∧ s.m_MinSize < 2 ^ 32 :=
      ⟨hidle, h.max_lt, h.min_lt⟩
    exact Shows.next (b := .ReadAtless s.m_MaxSize s.m_MinSize) (if_pos hcall)
      { h with reader := rfl, atless := fun _ => rfl }
  | loopEnds hpc =>
    have hidle : u.reader = .idle := by rw [h.reader, hpc]; rfl
    exact Shows.still { h with reader := hidle }
  | readsOn r hpc hmore =>
    have hmin : u.atless = s.m_MinSize := h.atless_eq hpc (by rintro ⟨⟩)
    have hmore' : i32 r.readCount < i32 u.atless := by rw [hmin]; exact hmore
    have hstep : WaitingBufferThreads.readerStep { u with reader := .test r } =
        some { u with reader := .lock r } := by
      simp only [WaitingBufferThreads.readerStep, if_pos hmore']
    exact Shows.next ((h.readerStep_eq hpc).trans hstep)
      { h with reader := rfl, atless := fun _ => hmin }
  | readEnds r hpc hdone =>
    have hmin : u.atless = s.m_MinSize := h.atless_eq hpc (by rintro ⟨⟩)
    have hdone' : ¬ i32 r.readCount < i32 u.atless := by rw [hmin]; exact hdone
    have hstep : WaitingBufferThreads.readerStep { u with reader := .test r } =
        some { u with reader := .leave r false } := by
      simp only [WaitingBufferThreads.readerStep, if_neg hdone']
    exact Shows.next ((h.readerStep_eq hpc).trans hstep)
      { h with reader := rfl, atless := fun _ => hmin }
  | readThrows r hpc hset =>
    have hmin : u.atless = s.m_MinSize := h.atless_eq hpc (by rintro ⟨⟩)
    exact Shows.next ((h.readerStep_eq hpc).trans (if_pos (hflag.trans hset)))
      { h with reader := rfl, atless := fun _ => hmin }
  | takes r hpc hdata hclear =>
    have hmin : u.atless = s.m_MinSize := h.atless_eq hpc (by rintro ⟨⟩)
    have hgo : ¬ u.m_Buffer.m_IsCancelRead = true := by
      rw [hflag, hclear]
      exact Bool.false_ne_true
    have hdata' : 0 < u.m_Buffer.m_DataLen := by rw [hlen]; exact hdata
    refine Shows.next ((h.readerStep_eq hpc).trans ((if_neg hgo).trans (if_pos hdata'))) ?_
    refine { h with m_Buffer := ?_, reader := ?_, atless := fun _ => hmin }
    · show (u.m_Buffer.ReadInternal r.len).2.2 = _
      rw [h.m_Buffer, WaitingBuffer.ReadInternal_unwaited]
    · show ReadAtlessPc.notifyWrite ⟨r.buffer ++ (u.m_Buffer.ReadInternal r.len).1,
        u32 (r.readCount + (u.m_Buffer.ReadInternal r.len).2.1),
        subU32 r.len (u.m_Buffer.ReadInternal r.len).2.1⟩ = _
      rw [h.m_Buffer, WaitingBuffer.ReadInternal_unwaited]
      rfl
  | workerWaits r hpc hnone hclear =>
    have hmin : u.atless = s.m_MinSize := h.atless_eq hpc (by rintro ⟨⟩)
    have hgo : ¬ u.m_Buffer.m_IsCancelRead = true := by
      rw [hflag, hclear]
      exact Bool.false_ne_true
    have hnone' : ¬ 0 < u.m_Buffer.m_DataLen := by rw [hlen]; exact hnone
    exact Shows.next ((h.readerStep_eq hpc).trans ((if_neg hgo).trans (if_neg hnone')))
      { h with reader := rfl, atless := fun _ => hmin }
  | notifiesWrite r hpc =>
    have hmin : u.atless = s.m_MinSize := h.atless_eq hpc (by rintro ⟨⟩)
    exact Shows.next (h.readerStep_eq hpc)
      { h.notifyWriter with reader := rfl, atless := fun _ => hmin }
  | notifiesWait r hpc =>
    have hmin : u.atless = s.m_MinSize := h.atless_eq hpc (by rintro ⟨⟩)
    exact Shows.next (h.readerStep_eq hpc) { h with reader := rfl, atless := fun _ => hmin }
  | readCancelled r hpc =>
    refine Shows.next (h.readerStep_eq hpc) { h with
      m_Buffer := ?_
      reader := rfl
      atless := fun hne => absurd rfl hne }
    show { u.m_Buffer with m_IsCancelRead := false } = _
    rw [h.m_Buffer]
    rfl
  | readReturns r hpc =>
    refine Shows.next (h.readerStep_eq hpc) { h with
      m_Buffer := ?_
      reader := ?_
      atless := fun hne => absurd rfl hne }
    · show { u.m_Buffer with m_IsCancelRead := false } = _
      rw [h.m_Buffer]
      rfl
    · show ReadAtlessPc.idle = WorkerPc.reader (if 0 < r.readCount then .deliver r else .canLoop)
      split_ifs
      · rfl
      · rfl
  | catches e m_status hpc =>
    have hidle : u.reader = .idle := by rw [h.reader, hpc]; rfl
    exact Shows.still { h with reader := hidle }
  | terminates e hpc => exact Shows.still { h with }

/-- An operation of a cancel is one of the ring's, or concerns its waiters only. -/
theorem Shows.cancelStep_follows (h : s.Shows u) (op : CancelOp) : Follows u (s.cancelStep op) := by
  cases op with
  | read =>
    refine Shows.next (b := .CancelRead) rfl { h.notifyReader with m_Buffer := ?_ }
    show u.m_Buffer.CancelRead = _
    rw [h.m_Buffer]
    rfl
  | write =>
    refine Shows.next (b := .CancelWrite) rfl { h.notifyWriter with m_Buffer := ?_ }
    show u.m_Buffer.CancelWrite = _
    rw [h.m_Buffer]
    rfl
  | wait => exact Shows.still { h with }

/-- **The ring's threads follow the whole**, step by step. -/
theorem shows_simulates : Simulates step WaitingBufferThreads.step Shows := by
  intro s u a t h hs
  cases a with
  | writer => exact h.writer_follows (step_moves hs)
  | worker => exact h.worker_follows (step_moves hs)
  | WriteBytes buffer =>
    cases step_moves hs with
    | queues buffer hlen =>
      refine Shows.still { h with queued := ?_ }
      intro buffer' hmem
      rcases List.mem_append.mp hmem with hold | hnew
      · exact h.queued buffer' hold
      · rw [List.mem_singleton.mp hnew]
        exact hlen
    | refuses buffer => exact h.still
  | lockWrite i =>
    cases step_moves hs with
    | locksWrite i buffer hpc hq =>
      have hlen : buffer.length < 2 ^ 31 := h.queued buffer (List.mem_of_getElem? hq)
      have hcall : u.writer = .idle ∧ buffer.length < 2 ^ 32 := ⟨h.writer.trans hpc, by omega⟩
      refine Shows.next (b := .WriteTillFinish buffer) (if_pos hcall) { h with
        writer := rfl
        queued := fun buffer' hmem => h.queued buffer' (List.mem_of_mem_eraseIdx hmem) }
  | wakeWriter =>
    cases step_moves hs with
    | wakeWriter => exact Shows.next (b := .wakeWriter) rfl h.notifyWriter
  | wakeWorker =>
    cases step_moves hs with
    | wakeWorker => exact Shows.next (b := .wakeReader) rfl h.notifyReader
  | source ends =>
    cases step_moves hs with
    | delivers r ends hpc =>
      have hidle : u.reader = .idle := by rw [h.reader, hpc]; rfl
      refine Shows.still { h with reader := ?_ }
      cases ends <;> exact hidle
  | WaitTillSourceIdeal =>
    cases step_moves hs with
    | WaitTillSourceIdeal => exact Shows.still { h with }
  | waiter i =>
    cases step_moves hs with
    | passes | waitThrows => exact Shows.still { h with m_Buffer := h.m_Buffer }
    | waiterWaits | returns => exact Shows.still { h with }
  | wakeWaiter i =>
    cases step_moves hs with
    | wakeWaiter i => exact Shows.still { h with }
  | Cancel =>
    cases step_moves hs with
    | Cancel => exact Shows.still { h with }
  | canceller i =>
    cases step_moves hs with
    | cancels i op ops hop =>
      have h' : Shows { s with cancellers := s.cancellers.set i ops } u := { h with }
      exact h'.cancelStep_follows op
  | Close =>
    cases step_moves hs with
    | Close hopen => exact Shows.still { h with }
  | closer =>
    cases step_moves hs with
    | closes op ops hop =>
      have h' : Shows { s with closing := ops } u := { h with }
      exact h'.cancelStep_follows op

theorem new_shows (fresh : Mem UInt8) (bufferSize : Nat) {maxPkgSize minPkgSize : Nat}
    (hmax : maxPkgSize < 2 ^ 32) (hmin : minPkgSize < 2 ^ 32) :
    Shows (new fresh bufferSize maxPkgSize minPkgSize) (.new fresh bufferSize) where
  m_Buffer := rfl
  writer := rfl
  reader := rfl
  atless := fun hne => absurd rfl hne
  max_lt := hmax
  min_lt := hmin
  queued := nofun

/-- Whoever is blocked on the ring and could go on is about to be notified. -/
structure RingAwake (s : AsyncWriter) : Prop where
  dataLen_le : s.m_Buffer.m_DataLen ≤ s.m_Buffer.m_Size
  writer : ∀ buffer, s.writer = .waiting buffer → s.m_Buffer.m_DataLen < s.m_Buffer.m_Size →
    ∃ r, s.worker = .notifyWrite r
  worker : ∀ r, s.worker = .waiting r → 0 < s.m_Buffer.m_DataLen →
    ∃ buffer, s.writer = .notify buffer

theorem Shows.ringAwake (h : s.Shows u) (hu : u.Awake) : s.RingAwake := by
  have hlen : u.m_Buffer.m_DataLen = s.m_Buffer.m_DataLen := by rw [h.m_Buffer]; rfl
  have hsize : u.m_Buffer.m_Size = s.m_Buffer.m_Size := by rw [h.m_Buffer]; rfl
  have hle := hu.dataLen_le
  rw [hlen, hsize] at hle
  refine ⟨hle, ?_, ?_⟩
  · intro buffer hwaits hroom
    rw [← hlen, ← hsize] at hroom
    obtain ⟨r, hr⟩ := hu.writer buffer (h.writer.trans hwaits) hroom
    exact ⟨r, WorkerPc.eq_notifyWrite (h.reader.symm.trans hr)⟩
  · intro r hwaits hdata
    rw [← hlen] at hdata
    obtain ⟨buffer, hb⟩ := hu.reader r (by rw [h.reader, hwaits]; rfl) hdata
    exact ⟨buffer, h.writer.symm.trans hb⟩

/-- **No lost wake-up in an `AsyncWriter`**, in any state of any run, with cancels, closes and a
source that throws. -/
theorem ring_awake (fresh : Mem UInt8) {bufferSize maxPkgSize minPkgSize : Nat}
    (h0 : 0 < bufferSize)
    (hsize : bufferSize < 2 ^ 32) (hmax : maxPkgSize < 2 ^ 32) (hmin : minPkgSize < 2 ^ 32)
    (as : List Action) : Along step RingAwake (new fresh bufferSize maxPkgSize minPkgSize) as :=
  shows_simulates.along (fun _ _ _ h hs => h.step hs) (fun _ _ h hu => h.ringAwake hu)
    (new_shows fresh bufferSize hmax hmin) (WaitingBufferThreads.new_awake fresh h0 hsize)

/-- A writer that the worker has left behind is blocked on a full ring. -/
theorem RingAwake.full (h : s.RingAwake) (hended : s.worker = .ended) {buffer : Bytes}
    (hwaits : s.writer = .waiting buffer) : s.m_Buffer.m_DataLen = s.m_Buffer.m_Size := by
  refine Nat.le_antisymm h.dataLen_le (Nat.not_lt.mp fun hroom => ?_)
  obtain ⟨r, hr⟩ := h.writer buffer hwaits hroom
  rw [hended] at hr
  cases hr

end AsyncWriter

end TiraRdp
