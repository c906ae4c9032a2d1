import TiraRdp.Lib.Lts
import TiraRdp.Utility.AsyncBase
import TiraRdp.Utility.WaitingBuffer

/-!
# `AsyncWriter`: writers, worker and waiters around one ring

Model of `common/utility/private/common/AsyncWriter.cpp` over `WaitingBuffer.h`, as a system of
threads. What runs under `m_BufMtx` is one step; so is a `notify_all`, a test made without the
mutex, and the end of a scope. The threads are

* the callers of `WriteBytes`: those in the queue for `m_WriteMtx` (`queued`) and the one that
  holds it (`writer`);
* the worker, in `Workloop` and `ReadAtless`;
* the callers of `WaitTillSourceIdeal` (`waiters`), of `Cancel` (`cancellers`) and of `Close`
  (`closing`, under `m_operationMutex`).

A thread in a wait goes on when it is notified, or spuriously (`wake…`). How a call of
`m_Source->WriteBytes` ends is up to the source. Ghost fields: the data of the calls that got
`m_WriteMtx`, the bytes the ring has accepted, the blocks passed to the source.

Results: without a cancel, what has been delivered, the worker's block and the ring's content are
the bytes accepted, at every point of a run, exactly as long as no index sum wraps
(`intact_iff_no_wrap`); in a ring of at most `2 ^ 31` cells none does (`intact_of_small`).
-/

namespace TiraRdp

open Lib Lib.Lts

/-- Where the holder of `m_WriteMtx` is in `WriteTillFinish`; `buffer` is what is left to write. -/
inductive WriterPc where
  | idle
  | test (buffer : Bytes)
  | lock (buffer : Bytes)
  | waiting (buffer : Bytes)
  | notify (buffer : Bytes)
  | leave (buffer : Bytes) (thrown : Bool)
  deriving Repr, DecidableEq

/-- The variables of a call of `ReadAtless`: what it has put into `m_TempBuffer`, and the room. -/
structure ReadCall where
  buffer : Bytes
  readCount : Nat
  len : Nat
  deriving Repr, DecidableEq

/-- Where the worker is in `Workloop`, or in the handler at its end. -/
inductive WorkerPc where
  | canLoop
  | test (r : ReadCall)
  | lock (r : ReadCall)
  | waiting (r : ReadCall)
  | notifyWrite (r : ReadCall)
  | notifyWait (r : ReadCall)
  | leave (r : ReadCall) (thrown : Bool)
  | deliver (r : ReadCall)
  | catching (e : Exn)
  | ended
  deriving Repr, DecidableEq

/-- Where a caller of `WaitTillSourceIdeal` is; `since` counts the bytes accepted at its call. -/
inductive WaiterPc where
  | lock (since : Nat)
  | waiting (since : Nat)
  | source (since : Nat)
  deriving Repr, DecidableEq

/-- The three cancels of `AsyncWriter::Cancel`, each a step of its own. -/
inductive CancelOp where
  | read
  | write
  | wait
  deriving Repr, DecidableEq

/-- `notify_all` on `m_WriteCV`. -/
def WriterPc.notified : WriterPc → WriterPc
  | .waiting buffer => .test buffer
  | pc => pc

/-- `notify_all` on `m_ReadCV`. -/
def WorkerPc.notified : WorkerPc → WorkerPc
  | .waiting r => .test r
  | pc => pc

/-- `notify_all` on `m_WaitCV`. -/
def WaiterPc.notified : WaiterPc → WaiterPc
  | .waiting since => .lock since
  | pc => pc

structure AsyncWriter where
  m_Buffer : WaitingBuffer
  m_MaxSize : Nat
  m_MinSize : Nat
  m_status : Ti_Worker_Status
  queued : List Bytes
  writer : WriterPc
  worker : WorkerPc
  waiters : List WaiterPc
  cancellers : List (List CancelOp)
  closing : List CancelOp
  terminated : Bool
  calls : List Bytes
  accepted : Bytes
  delivered : List Bytes

namespace AsyncWriter

/-- The constructor, its worker started. -/
def new (fresh : Mem UInt8) (bufferSize maxPkgSize minPkgSize : Nat) : AsyncWriter where
  m_Buffer := .new fresh bufferSize
  m_MaxSize := maxPkgSize
  m_MinSize := minPkgSize
  m_status := (AsyncBase.StartAsyncBase .Status_Stopped).1
  queued := []
  writer := .idle
  worker := .canLoop
  waiters := []
  cancellers := []
  closing := []
  terminated := false
  calls := []
  accepted := []
  delivered := []

/-- What can happen next. -/
inductive Action where
  | WriteBytes (buffer : Bytes)
  | lockWrite (i : Nat)
  | writer
  | wakeWriter
  | worker
  | wakeWorker
  | source (ends : Except Exn Unit)
  | WaitTillSourceIdeal
  | waiter (i : Nat)
  | wakeWaiter (i : Nat)
  | Cancel
  | canceller (i : Nat)
  | Close
  | closer

/-- The next step of the holder of `m_WriteMtx` (`WaitingBuffer.h:50-79`). -/
def writerStep (s : AsyncWriter) : Option AsyncWriter :=
  match s.writer with
  | .idle => none
  | .test buffer =>
    if buffer ≠ [] ∧ s.m_Buffer.m_IsCancelWrite = false then some { s with writer := .lock buffer }
    else some { s with writer := .leave buffer false }
  | .lock buffer =>
    if s.m_Buffer.m_IsCancelWrite then some { s with writer := .leave buffer true }
    else if 0 < subU32 s.m_Buffer.m_Size s.m_Buffer.m_DataLen then
      let written := s.m_Buffer.WriteInternal buffer buffer.length
      some { s with
        m_Buffer := written.2
        accepted := s.accepted ++ buffer.take written.1
        writer := .notify (buffer.drop written.1) }
    else some { s with writer := .waiting buffer }
  | .waiting _ => none
  | .notify buffer => some { s with worker := s.worker.notified, writer := .test buffer }
  | .leave _ _ =>
    some { s with m_Buffer := { s.m_Buffer with m_IsCancelWrite := false }, writer := .idle }

/-- The next step of the worker, its calls of the source apart (`AsyncWriter.cpp:20-33`,
`WaitingBuffer.h:84-119`, `AsyncBase.cpp:85-99`). -/
def workerStep (s : AsyncWriter) : Option AsyncWriter :=
  match s.worker with
  | .canLoop =>
    -- `CanLoopContinue` takes `m_operationMutex`
    if s.closing ≠ [] then none
    else
      match AsyncBase.CanLoopContinue s.m_status with
      | none => none
      | some true => some { s with worker := .test ⟨[], 0, s.m_MaxSize⟩ }
      | some false => some { s with worker := .ended }
  | .test r =>
    if i32 r.readCount < i32 s.m_MinSize then some { s with worker := .lock r }
    else some { s with worker := .leave r false }
  | .lock r =>
    if s.m_Buffer.m_IsCancelRead then some { s with worker := .leave r true }
    else if 0 < s.m_Buffer.m_DataLen then
      let taken := s.m_Buffer.ReadInternal r.len
      some { s with
        m_Buffer := taken.2.2
        worker := .notifyWrite
          ⟨r.buffer ++ taken.1, u32 (r.readCount + taken.2.1), subU32 r.len taken.2.1⟩ }
    else some { s with worker := .waiting r }
  | .waiting _ => none
  | .notifyWrite r => some { s with writer := s.writer.notified, worker := .notifyWait r }
  | .notifyWait r => some { s with waiters := s.waiters.map .notified, worker := .test r }
  | .leave r thrown =>
    some { s with
      m_Buffer := { s.m_Buffer with m_IsCancelRead := false }
      worker :=
        if thrown then .catching (.exceptionWithString "WaitingBuffer: Reading is canceled!")
        else if 0 < r.readCount then .deliver r
        else .canLoop }
  | .deliver _ => none
  | .catching e =>
    match AsyncBase.threadExit s.m_status (.error e) with
    | some m_status => some { s with m_status, worker := .ended }
    | none => some { s with terminated := true }
  | .ended => none

/-- The worker passes its block to the source, whose call ends so. -/
def sourceStep (s : AsyncWriter) (ends : Except Exn Unit) : Option AsyncWriter :=
  match s.worker with
  | .deliver r =>
    some { s with
      delivered := s.delivered ++ [r.buffer.take r.readCount]
      worker := match ends with
        | .ok _ => .canLoop
        | .error e => .catching e }
  | _ => none

/-- The next step of the `i`-th caller of `WaitTillSourceIdeal` (`WaitingBuffer.h:36-49`). -/
def waiterStep (s : AsyncWriter) (i : Nat) : Option AsyncWriter :=
  match s.waiters[i]? with
  | some (.lock since) =>
    if s.m_Buffer.m_DataLen = 0 ∨ s.m_Buffer.m_IsCancelWait = true then
      some { s with
        m_Buffer := { s.m_Buffer with m_IsCancelWait := false }
        waiters :=
          if s.m_Buffer.m_IsCancelWait then s.waiters.eraseIdx i
          else s.waiters.set i (.source since) }
    else some { s with waiters := s.waiters.set i (.waiting since) }
  | some (.waiting _) => none
  | some (.source _) => some { s with waiters := s.waiters.eraseIdx i }
  | none => none

/-- `CancelRead`, `CancelWrite` or `CancelWait`: the flag and the notification, under the mutex. -/
def cancelStep (s : AsyncWriter) : CancelOp → AsyncWriter
  | .read => { s with m_Buffer := s.m_Buffer.CancelRead, worker := s.worker.notified }
  | .write => { s with m_Buffer := s.m_Buffer.CancelWrite, writer := s.writer.notified }
  | .wait => { s with m_Buffer := s.m_Buffer.CancelWait, waiters := s.waiters.map .notified }

/-- One step of the system. A process that was terminated takes none. -/
def step (s : AsyncWriter) (a : Action) : Option AsyncWriter :=
  if s.terminated then none
  else
    match a with
    | .WriteBytes buffer =>
      -- `len` is an `int`; a worker that does not run fails the `ENSURE`, which throws
      if 2 ^ 31 ≤ buffer.length then none
      else if AsyncBase.IsAsyncBaseRunning s.m_status then
        some { s with queued := s.queued ++ [buffer] }
      else some s
    | .lockWrite i =>
      match s.writer, s.queued[i]? with
      | .idle, some buffer =>
        some { s with
          queued := s.queued.eraseIdx i
          writer := .test buffer
          calls := s.calls ++ [buffer] }
      | _, _ => none
    | .writer => s.writerStep
    | .wakeWriter => some { s with writer := s.writer.notified }
    | .worker => s.workerStep
    | .wakeWorker => some { s with worker := s.worker.notified }
    | .source ends => s.sourceStep ends
    | .WaitTillSourceIdeal => some { s with waiters := s.waiters ++ [.lock s.accepted.length] }
    | .waiter i => s.waiterStep i
    | .wakeWaiter i => some { s with waiters := s.waiters.modify i .notified }
    | .Cancel => some { s with cancellers := s.cancellers ++ [[.read, .write, .wait]] }
    | .canceller i =>
      match s.cancellers[i]? with
      | some (op :: ops) =>
        some ({ s with cancellers := s.cancellers.set i ops }.cancelStep op)
      | _ => none
    | .Close =>
      if s.closing ≠ [] then none
      else
        some { s with
          m_status := (AsyncBase.StopAsyncBase s.m_status).1
          closing := if (AsyncBase.StopAsyncBase s.m_status).2 then [.read, .write, .wait] else [] }
    | .closer =>
      match s.closing with
      | op :: ops => some ({ s with closing := ops }.cancelStep op)
      | [] => none

/-! ## What a step can be -/

inductive Moves (s : AsyncWriter) : Action → AsyncWriter → Prop
  | queues (buffer : Bytes) (hlen : buffer.length < 2 ^ 31) :
    Moves s (.WriteBytes buffer) { s with queued := s.queued ++ [buffer] }
  | refuses (buffer : Bytes) : Moves s (.WriteBytes buffer) s
  | locksWrite (i : Nat) (buffer : Bytes) (hpc : s.writer = .idle) (hq : s.queued[i]? = some buffer) :
    Moves s (.lockWrite i) { s with
      queued := s.queued.eraseIdx i
      writer := .test buffer
      calls := s.calls ++ [buffer] }
  | writesOn (buffer : Bytes) (hpc : s.writer = .test buffer) (hne : buffer ≠ [])
      (hflag : s.m_Buffer.m_IsCancelWrite = false) :
        Moves s .writer { s with writer := .lock buffer }
  | writeEnds (buffer : Bytes) (hpc : s.writer = .test buffer)
      (hend : buffer ≠ [] → s.m_Buffer.m_IsCancelWrite = true) :
    Moves s .writer { s with writer := .leave buffer false }
  | writeThrows (buffer : Bytes) (hpc : s.writer = .lock buffer)
      (hflag : s.m_Buffer.m_IsCancelWrite = true) :
    Moves s .writer { s with writer := .leave buffer true }
  | stores (buffer : Bytes) (hpc : s.writer = .lock buffer)
      (hroom : 0 < subU32 s.m_Buffer.m_Size s.m_Buffer.m_DataLen)
      (hflag : s.m_Buffer.m_IsCancelWrite = false) :
    Moves s .writer { s with
      m_Buffer := (s.m_Buffer.WriteInternal buffer buffer.length).2
      accepted := s.accepted ++ buffer.take (s.m_Buffer.writeLen buffer.length)
      writer := .notify (buffer.drop (s.m_Buffer.writeLen buffer.length)) }
  | writerWaits (buffer : Bytes) (hpc : s.writer = .lock buffer)
      (hflag : s.m_Buffer.m_IsCancelWrite = false)
      (hfull : ¬ 0 < subU32 s.m_Buffer.m_Size s.m_Buffer.m_DataLen) :
    Moves s .writer { s with writer := .waiting buffer }
  | notifiesRead (buffer : Bytes) (hpc : s.writer = .notify buffer) :
    Moves s .writer { s with worker := s.worker.notified, writer := .test buffer }
  | writerLeaves (buffer : Bytes) (thrown : Bool) (hpc : s.writer = .leave buffer thrown) :
    Moves s .writer { s with
      m_Buffer := { s.m_Buffer with m_IsCancelWrite := false }
      writer := .idle }
  | wakeWriter : Moves s .wakeWriter { s with writer := s.writer.notified }
  | loops (hpc : s.worker = .canLoop) (hgo : AsyncBase.CanLoopContinue s.m_status = some true) :
    Moves s .worker { s with worker := .test ⟨[], 0, s.m_MaxSize⟩ }
  | loopEnds (hpc : s.worker = .canLoop) (hopen : s.closing = [])
      (hstop : AsyncBase.CanLoopContinue s.m_status = some false) :
    Moves s .worker { s with worker := .ended }
  | readsOn (r : ReadCall) (hpc : s.worker = .test r) (hmore : i32 r.readCount < i32 s.m_MinSize) :
    Moves s .worker { s with worker := .lock r }
  | readEnds (r : ReadCall) (hpc : s.worker = .test r) (hdone : ¬ i32 r.readCount < i32 s.m_MinSize) :
    Moves s .worker { s with worker := .leave r false }
  | readThrows (r : ReadCall) (hpc : s.worker = .lock r) (hflag : s.m_Buffer.m_IsCancelRead = true) :
    Moves s .worker { s with worker := .leave r true }
  | takes (r : ReadCall) (hpc : s.worker = .lock r) (hdata : 0 < s.m_Buffer.m_DataLen)
      (hflag : s.m_Buffer.m_IsCancelRead = false) :
    Moves s .worker { s with
      m_Buffer := (s.m_Buffer.ReadInternal r.len).2.2
      worker := .notifyWrite ⟨r.buffer ++ (s.m_Buffer.ReadInternal r.len).1,
        u32 (r.readCount + s.m_Buffer.readLen r.len), subU32 r.len (s.m_Buffer.readLen r.len)⟩ }
  | workerWaits (r : ReadCall) (hpc : s.worker = .lock r) (hnone : ¬ 0 < s.m_Buffer.m_DataLen)
      (hflag : s.m_Buffer.m_IsCancelRead = false) :
    Moves s .worker { s with worker := .waiting r }
  | notifiesWrite (r : ReadCall) (hpc : s.worker = .notifyWrite r) :
    Moves s .worker { s with writer := s.writer.notified, worker := .notifyWait r }
  | notifiesWait (r : ReadCall) (hpc : s.worker = .notifyWait r) :
    Moves s .worker { s with waiters := s.waiters.map .notified, worker := .test r }
  | readCancelled (r : ReadCall) (hpc : s.worker = .leave r true) :
    Moves s .worker { s with
      m_Buffer := { s.m_Buffer with m_IsCancelRead := false }
      worker := .catching (.exceptionWithString "WaitingBuffer: Reading is canceled!") }
  | readReturns (r : ReadCall) (hpc : s.worker = .leave r false) :
    Moves s .worker { s with
      m_Buffer := { s.m_Buffer with m_IsCancelRead := false }
      worker := if 0 < r.readCount then .deliver r else .canLoop }
  | catches (e : Exn) (m_status : Ti_Worker_Status) (hpc : s.worker = .catching e)
      (hexit : AsyncBase.threadExit s.m_status (.error e) = some m_status) :
    Moves s .worker { s with m_status, worker := .ended }
  | terminates (e : Exn) (hpc : s.worker = .catching e)
      (hexit : AsyncBase.threadExit s.m_status (.error e) = none) :
    Moves s .worker { s with terminated := true }
  | wakeWorker : Moves s .wakeWorker { s with worker := s.worker.notified }
  | delivers (r : ReadCall) (ends : Except Exn Unit) (hpc : s.worker = .deliver r) :
    Moves s (.source ends) { s with
      delivered := s.delivered ++ [r.buffer.take r.readCount]
      worker := match ends with
        | .ok _ => .canLoop
        | .error e => .catching e }
  | WaitTillSourceIdeal :
    Moves s .WaitTillSourceIdeal { s with waiters := s.waiters ++ [.lock s.accepted.length] }
  | passes (i since : Nat) (hpc : s.waiters[i]? = some (.lock since))
      (hempty : s.m_Buffer.m_DataLen = 0) :
    Moves s (.waiter i) { s with
      m_Buffer := { s.m_Buffer with m_IsCancelWait := false }
      waiters := s.waiters.set i (.source since) }
  | waitThrows (i since : Nat) (hpc : s.waiters[i]? = some (.lock since))
      (hflag : s.m_Buffer.m_IsCancelWait = true) :
    Moves s (.waiter i) { s with
      m_Buffer := { s.m_Buffer with m_IsCancelWait := false }
      waiters := s.waiters.eraseIdx i }
  | waiterWaits (i since : Nat) (hpc : s.waiters[i]? = some (.lock since))
      (hflag : s.m_Buffer.m_IsCancelWait = false) (hdata : s.m_Buffer.m_DataLen ≠ 0) :
    Moves s (.waiter i) { s with waiters := s.waiters.set i (.waiting since) }
  | returns (i since : Nat) (hpc : s.waiters[i]? = some (.source since)) :
    Moves s (.waiter i) { s with waiters := s.waiters.eraseIdx i }
  | wakeWaiter (i : Nat) :
    Moves s (.wakeWaiter i) { s with waiters := s.waiters.modify i .notified }
  | Cancel : Moves s .Cancel { s with cancellers := s.cancellers ++ [[.read, .write, .wait]] }
  | cancels (i : Nat) (op : CancelOp) (ops : List CancelOp)
      (hop : s.cancellers[i]? = some (op :: ops)) :
    Moves s (.canceller i) ({ s with cancellers := s.cancellers.set i ops }.cancelStep op)
  | Close (hopen : s.closing = []) :
    Moves s .Close { s with
      m_status := .Status_Stopped
      closing := if (AsyncBase.StopAsyncBase s.m_status).2 then [.read, .write, .wait] else [] }
  | closes (op : CancelOp) (ops : List CancelOp) (hop : s.closing = op :: ops) :
    Moves s .closer ({ s with closing := ops }.cancelStep op)

theorem writerStep_moves {s s' : AsyncWriter} (hs : s.writerStep = some s') :
    Moves s .writer s' := by
  unfold writerStep at hs
  cases hpc : s.writer with
  | test buffer =>
    by_cases hloop : buffer ≠ [] ∧ s.m_Buffer.m_IsCancelWrite = false
    · simp only [hpc, if_pos hloop, Option.some.injEq] at hs
      exact hs ▸ .writesOn buffer hpc hloop.1 hloop.2
    · simp only [hpc, if_neg hloop, Option.some.injEq] at hs
      refine hs ▸ .writeEnds buffer hpc ?_
      intro hne
      by_contra hflag
      exact hloop ⟨hne, Bool.eq_false_iff.mpr hflag⟩
  | lock buffer =>
    by_cases hflag : s.m_Buffer.m_IsCancelWrite = true
    · simp only [hpc, if_pos hflag, Option.some.injEq] at hs
      exact hs ▸ .writeThrows buffer hpc hflag
    · simp only [hpc, if_neg hflag] at hs
      by_cases hroom : 0 < subU32 s.m_Buffer.m_Size s.m_Buffer.m_DataLen
      · simp only [if_pos hroom, Option.some.injEq] at hs
        exact hs ▸ .stores buffer hpc hroom (Bool.eq_false_iff.mpr hflag)
      · simp only [if_neg hroom, Option.some.injEq] at hs
        exact hs ▸ .writerWaits buffer hpc (Bool.eq_false_iff.mpr hflag) hroom
  | notify buffer =>
    simp only [hpc, Option.some.injEq] at hs
    exact hs ▸ .notifiesRead buffer hpc
  | leave buffer thrown =>
    simp only [hpc, Option.some.injEq] at hs
    exact hs ▸ .writerLeaves buffer thrown hpc
  | _ => simp [hpc] at hs

theorem workerStep_moves {s s' : AsyncWriter} (hs : s.workerStep = some s') :
    Moves s .worker s' := by
  unfold workerStep at hs
  cases hpc : s.worker with
  | canLoop =>
    by_cases hopen : s.closing = []
    · have hshut : ¬ s.closing ≠ [] := not_not.mpr hopen
      simp only [hpc, if_neg hshut] at hs
      cases hgo : AsyncBase.CanLoopContinue s.m_status with
      | none => simp [hgo] at hs
      | some go =>
        cases go with
        | true =>
          simp only [hgo, Option.some.injEq] at hs
          exact hs ▸ .loops hpc hgo
        | false =>
          simp only [hgo, Option.some.injEq] at hs
          exact hs ▸ .loopEnds hpc hopen hgo
    · simp only [hpc, ne_eq, hopen, not_false_eq_true, if_true, reduceCtorEq] at hs
  | test r =>
    by_cases hloop : i32 r.readCount < i32 s.m_MinSize
    · simp only [hpc, if_pos hloop, Option.some.injEq] at hs
      exact hs ▸ .readsOn r hpc hloop
    · simp only [hpc, if_neg hloop, Option.some.injEq] at hs
      exact hs ▸ .readEnds r hpc hloop
  | lock r =>
    by_cases hflag : s.m_Buffer.m_IsCancelRead = true
    · simp only [hpc, if_pos hflag, Option.some.injEq] at hs
      exact hs ▸ .readThrows r hpc hflag
    · simp only [hpc, if_neg hflag] at hs
      by_cases hdata : 0 < s.m_Buffer.m_DataLen
      · simp only [if_pos hdata, Option.some.injEq] at hs
        exact hs ▸ .takes r hpc hdata (Bool.eq_false_iff.mpr hflag)
      · simp only [if_neg hdata, Option.some.injEq] at hs
        exact hs ▸ .workerWaits r hpc hdata (Bool.eq_false_iff.mpr hflag)
  | notifyWrite r =>
    simp only [hpc, Option.some.injEq] at hs
    exact hs ▸ .notifiesWrite r hpc
  | notifyWait r =>
    simp only [hpc, Option.some.injEq] at hs
    exact hs ▸ .notifiesWait r hpc
  | leave r thrown =>
    cases thrown with
    | true =>
      simp only [hpc, if_true, Option.some.injEq] at hs
      exact hs ▸ .readCancelled r hpc
    | false =>
      simp only [hpc, if_neg Bool.false_ne_true, Option.some.injEq] at hs
      exact hs ▸ .readReturns r hpc
  | catching e =>
    cases hexit : AsyncBase.threadExit s.m_status (.error e) with
    | none =>
      simp only [hpc, hexit, Option.some.injEq] at hs
      rw [← hs, ← hpc]
      exact .terminates e hpc hexit
    | some m_status =>
      simp only [hpc, hexit, Option.some.injEq] at hs
      exact hs ▸ .catches e m_status hpc hexit
  | _ => simp [hpc] at hs

theorem waiterStep_moves {s s' : AsyncWriter} {i : Nat} (hs : s.waiterStep i = some s') :
    Moves s (.waiter i) s' := by
  unfold waiterStep at hs
  cases hpc : s.waiters[i]? with
  | none => simp [hpc] at hs
  | some pc =>
    cases pc with
    | lock since =>
      by_cases hpred : s.m_Buffer.m_DataLen = 0 ∨ s.m_Buffer.m_IsCancelWait = true
      · simp only [hpc, if_pos hpred, Option.some.injEq] at hs
        by_cases hflag : s.m_Buffer.m_IsCancelWait = true
        · rw [if_pos hflag] at hs
          exact hs ▸ .waitThrows i since hpc hflag
        · rw [if_neg hflag] at hs
          exact hs ▸ .passes i since hpc (hpred.resolve_right hflag)
      · simp only [hpc, if_neg hpred, Option.some.injEq] at hs
        rw [not_or] at hpred
        exact hs ▸ .waiterWaits i since hpc (Bool.eq_false_iff.mpr hpred.2) hpred.1
    | waiting since => simp [hpc] at hs
    | source since =>
      simp only [hpc, Option.some.injEq] at hs
      exact hs ▸ .returns i since hpc

theorem step_moves {s s' : AsyncWriter} {a : Action} (hs : step s a = some s') : Moves s a s' := by
  unfold step at hs
  by_cases hterm : s.terminated = true
  · simp [hterm] at hs
  rw [if_neg hterm] at hs
  cases a with
  | WriteBytes buffer =>
    by_cases hlen : 2 ^ 31 ≤ buffer.length
    · simp only [if_pos hlen, reduceCtorEq] at hs
    by_cases hrun : AsyncBase.IsAsyncBaseRunning s.m_status = true
    · simp only [if_neg hlen, if_pos hrun, Option.some.injEq] at hs
      exact hs ▸ .queues buffer (Nat.not_le.mp hlen)
    · simp only [if_neg hlen, if_neg hrun, Option.some.injEq] at hs
      exact hs ▸ .refuses buffer
  | lockWrite i =>
    cases hpc : s.writer with
    | idle =>
      cases hq : s.queued[i]? with
      | none => simp [hpc, hq] at hs
      | some buffer =>
        simp only [hpc, hq, Option.some.injEq] at hs
        exact hs ▸ .locksWrite i buffer hpc hq
    | _ => simp [hpc] at hs
  | writer => exact writerStep_moves hs
  | wakeWriter => exact Option.some.inj hs ▸ .wakeWriter
  | worker => exact workerStep_moves hs
  | wakeWorker => exact Option.some.inj hs ▸ .wakeWorker
  | source ends =>
    unfold sourceStep at hs
    cases hpc : s.worker with
    | deliver r =>
      simp only [hpc, Option.some.injEq] at hs
      exact hs ▸ .delivers r ends hpc
    | _ => simp [hpc] at hs
  | WaitTillSourceIdeal => exact Option.some.inj hs ▸ .WaitTillSourceIdeal
  | waiter i => exact waiterStep_moves hs
  | wakeWaiter i => exact Option.some.inj hs ▸ .wakeWaiter i
  | Cancel => exact Option.some.inj hs ▸ .Cancel
  | canceller i =>
    cases hop : s.cancellers[i]? with
    | none => simp [hop] at hs
    | some todo =>
      cases todo with
      | nil => simp [hop] at hs
      | cons op ops =>
        simp only [hop, Option.some.injEq] at hs
        exact hs ▸ .cancels i op ops hop
  | Close =>
    by_cases hopen : s.closing = []
    · simp only [hopen, ne_eq, not_true_eq_false, if_false, Option.some.injEq] at hs
      exact hs ▸ .Close hopen
    · simp only [ne_eq, hopen, not_false_eq_true, if_true, reduceCtorEq] at hs
  | closer =>
    cases hop : s.closing with
    | nil => simp [hop] at hs
    | cons op ops =>
      simp only [hop, Option.some.injEq] at hs
      exact hs ▸ .closes op ops hop

/-- What `wakeWaiter` leaves in the list. -/
theorem mem_of_mem_modify {α : Type} {f : α → α} {x : α} {l : List α} {i : Nat}
    (h : x ∈ l.modify i f) :
    x ∈ l ∨ ∃ y ∈ l, x = f y := by
  obtain ⟨j, hj⟩ := List.mem_iff_getElem?.mp h
  rw [List.getElem?_modify] at hj
  obtain ⟨y, hy, hx⟩ := Option.map_eq_some_iff.mp hj
  have hmem : y ∈ l := List.mem_of_getElem? hy
  by_cases hij : i = j
  · rw [if_pos hij] at hx
    exact .inr ⟨y, hmem, hx.symm⟩
  · rw [if_neg hij] at hx
    exact .inl (hx ▸ hmem)

/-! ## The stream -/

end AsyncWriter

/-- The call of `ReadAtless` whose block has not been passed on. -/
def WorkerPc.call : WorkerPc → Option ReadCall
  | .test r => some r
  | .lock r => some r
  | .waiting r => some r
  | .notifyWrite r => some r
  | .notifyWait r => some r
  | .leave r _ => some r
  | .deliver r => some r
  | .canLoop => none
  | .catching _ => none
  | .ended => none

/-- What the worker's temporary block holds. -/
def WorkerPc.temp (pc : WorkerPc) : Bytes :=
  match pc.call with
  | some r => r.buffer
  | none => []

/-- What the call in progress has still to write. -/
def WriterPc.rest : WriterPc → Bytes
  | .idle => []
  | .test buffer => buffer
  | .lock buffer => buffer
  | .waiting buffer => buffer
  | .notify buffer => buffer
  | .leave buffer _ => buffer

@[simp] theorem WriterPc.rest_notified (pc : WriterPc) : pc.notified.rest = pc.rest := by
  cases pc <;> rfl

@[simp] theorem WorkerPc.call_notified (pc : WorkerPc) : pc.notified.call = pc.call := by
  cases pc <;> rfl

/-- A writer that leaves has written everything; no cancel threw it out. -/
def WriterPc.Done : WriterPc → Prop
  | .leave buffer thrown => buffer = [] ∧ thrown = false
  | _ => True

/-- No cancel threw the worker out of `ReadAtless`. -/
def WorkerPc.Unthrown : WorkerPc → Prop
  | .leave _ thrown => thrown = false
  | _ => True

theorem WriterPc.Done.notified {pc : WriterPc} (h : pc.Done) : pc.notified.Done := by
  cases pc <;> trivial

theorem WorkerPc.Unthrown.notified {pc : WorkerPc} (h : pc.Unthrown) : pc.notified.Unthrown := by
  cases pc <;> trivial

/-- The variables of a read count the bytes of its block, and the room that is left. -/
def ReadCall.Counts (m_MaxSize : Nat) (r : ReadCall) : Prop :=
  r.readCount = r.buffer.length ∧ r.buffer.length + r.len = m_MaxSize

/-- The read of a critical section keeps count of its block. -/
theorem ReadCall.Counts.advance {m_MaxSize n : Nat} {r : ReadCall} {out : Bytes}
    (h : r.Counts m_MaxSize) (hmax : m_MaxSize < 2 ^ 32) (hn : n ≤ r.len) (hout : out.length = n) :
    ReadCall.Counts m_MaxSize ⟨r.buffer ++ out, u32 (r.readCount + n), subU32 r.len n⟩ := by
  obtain ⟨hcount, hroom⟩ := h
  have hsum : u32 (r.readCount + n) = r.readCount + n := u32_of_lt (by omega)
  have hlen : subU32 r.len n = r.len - n := subU32_of_le (by omega) hn
  constructor
  · show u32 (r.readCount + n) = (r.buffer ++ out).length
    rw [hsum, List.length_append, hout, hcount]
  · show (r.buffer ++ out).length + subU32 r.len n = m_MaxSize
    rw [hlen, List.length_append]
    omega

namespace AsyncWriter

/-- Nothing lost, duplicated or reordered, and a ring whose indices agree. -/
structure Intact (s : AsyncWriter) : Prop where
  stream : s.delivered.flatten ++ s.worker.temp ++ s.m_Buffer.content = s.accepted
  written : s.accepted ++ s.writer.rest = s.calls.flatten
  indexed : s.m_Buffer.Indexed
  inBlock : s.m_Buffer.stray = false

/-- The critical section about to run is one whose index sum stays below the wrap. -/
def NoWrap (s : AsyncWriter) : Action → Prop
  | .writer => ∀ buffer, s.writer = .lock buffer →
      s.m_Buffer.m_End + s.m_Buffer.writeLen buffer.length < 2 ^ 32
  | .worker => ∀ r, s.worker = .lock r →
      s.m_Buffer.m_Start + s.m_Buffer.readLen r.len < 2 ^ 32
  | _ => True

/-- The actions that start a cancel. -/
def Action.isCancel : Action → Bool
  | .Cancel => true
  | .Close => true
  | _ => false

/-- **The invariant** of the runs without a cancel. -/
structure Flowing (bufferSize : Nat) (s : AsyncWriter) : Prop where
  ring : s.m_Buffer.InOrder
  size : s.m_Buffer.m_Size = bufferSize
  stream : s.delivered.flatten ++ s.worker.temp ++ s.m_Buffer.content = s.accepted
  written : s.accepted ++ s.writer.rest = s.calls.flatten
  max_lt : s.m_MaxSize < 2 ^ 32
  counts : ∀ r, s.worker.call = some r → r.Counts s.m_MaxSize
  done : s.writer.Done
  unthrown : s.worker.Unthrown
  noRead : s.m_Buffer.m_IsCancelRead = false
  noWrite : s.m_Buffer.m_IsCancelWrite = false
  noCancellers : s.cancellers = []
  noClosing : s.closing = []

variable {bufferSize : Nat} {s t : AsyncWriter}

theorem Flowing.intact (h : Flowing bufferSize s) : s.Intact :=
  ⟨h.stream, h.written, h.ring.indexed, h.ring.inBlock⟩

theorem new_flowing {fresh : Mem UInt8} {maxPkgSize minPkgSize : Nat}
    (h0 : 0 < bufferSize) (hsize : bufferSize < 2 ^ 32) (hmax : maxPkgSize < 2 ^ 32) :
    Flowing bufferSize (new fresh bufferSize maxPkgSize minPkgSize) where
  ring := WaitingBuffer.new_inOrder h0 hsize
  size := rfl
  stream := rfl
  written := rfl
  max_lt := hmax
  counts := nofun
  done := trivial
  unthrown := trivial
  noRead := rfl
  noWrite := rfl
  noCancellers := rfl
  noClosing := rfl

/-- The writer goes on in the same call. -/
theorem Flowing.setWriter (h : Flowing bufferSize s) {pc : WriterPc}
    (hrest : pc.rest = s.writer.rest)
    (hdone : pc.Done) : Flowing bufferSize { s with writer := pc } := by
  refine { h with written := ?_, done := hdone }
  show s.accepted ++ pc.rest = s.calls.flatten
  rw [hrest]
  exact h.written

/-- The worker goes on in the same call, or between two of them. -/
theorem Flowing.setWorker (h : Flowing bufferSize s) {pc : WorkerPc}
    (hcall : pc.call = s.worker.call)
    (hunthrown : pc.Unthrown) : Flowing bufferSize { s with worker := pc } := by
  have htemp : pc.temp = s.worker.temp := by
    unfold WorkerPc.temp
    rw [hcall]
  refine { h with stream := ?_, counts := fun r hr => h.counts r (hcall ▸ hr), unthrown := hunthrown }
  show s.delivered.flatten ++ pc.temp ++ s.m_Buffer.content = s.accepted
  rw [htemp]
  exact h.stream

theorem Flowing.notifyWriter (h : Flowing bufferSize s) :
    Flowing bufferSize { s with writer := s.writer.notified } :=
  h.setWriter s.writer.rest_notified h.done.notified

theorem Flowing.notifyWorker (h : Flowing bufferSize s) :
    Flowing bufferSize { s with worker := s.worker.notified } :=
  h.setWorker s.worker.call_notified h.unthrown.notified

/-- A write of the critical section moves bytes from the call to the end of the ring. -/
theorem Flowing.stores (h : Flowing bufferSize s) {buffer : Bytes} (hpc : s.writer = .lock buffer)
    (hsum : s.m_Buffer.m_End + s.m_Buffer.writeLen buffer.length < 2 ^ 32) :
    Flowing bufferSize { s with
      m_Buffer := (s.m_Buffer.WriteInternal buffer buffer.length).2
      accepted := s.accepted ++ buffer.take (s.m_Buffer.writeLen buffer.length)
      writer := .notify (buffer.drop (s.m_Buffer.writeLen buffer.length)) } := by
  obtain ⟨w, hwi, hring, hframe, hcontent⟩ := WaitingBuffer.WriteInternal_spec h.ring hsum
  have hwritten := h.written
  rw [hpc] at hwritten
  rw [hwi]
  generalize s.m_Buffer.writeLen buffer.length = n at hcontent
  have hmoved : s.accepted ++ buffer.take n ++ buffer.drop n = s.calls.flatten := by
    rw [List.append_assoc, List.take_append_drop]
    exact hwritten
  exact { h with
    ring := hring
    size := hframe.size.trans h.size
    stream := by rw [hcontent, ← List.append_assoc, h.stream]
    written := hmoved
    done := trivial
    noRead := hframe.cancelRead.trans h.noRead
    noWrite := hframe.cancelWrite.trans h.noWrite }

/-- A read of the critical section moves bytes from the front of the ring to the block. -/
theorem Flowing.takes (h : Flowing bufferSize s) {r : ReadCall} (hpc : s.worker = .lock r)
    (hsum : s.m_Buffer.m_Start + s.m_Buffer.readLen r.len < 2 ^ 32) :
    Flowing bufferSize { s with
      m_Buffer := (s.m_Buffer.ReadInternal r.len).2.2
      worker := .notifyWrite ⟨r.buffer ++ (s.m_Buffer.ReadInternal r.len).1,
        u32 (r.readCount + s.m_Buffer.readLen r.len), subU32 r.len (s.m_Buffer.readLen r.len)⟩ } := by
  obtain ⟨out, w, hri, hring, hframe, hout, hcontent⟩ := WaitingBuffer.ReadInternal_spec h.ring hsum
  have hstream := h.stream
  have hcounts := h.counts r (by rw [hpc]; rfl)
  rw [hpc] at hstream
  rw [hri]
  have hmoved : s.delivered.flatten ++ (r.buffer ++ out) ++ w.content = s.accepted := by
    rw [← hstream, hcontent]
    simp only [WorkerPc.temp, WorkerPc.call, List.append_assoc]
  refine { h with
    ring := hring
    size := hframe.size.trans h.size
    stream := hmoved
    counts := fun r' hr' => ?_
    unthrown := trivial
    noRead := hframe.cancelRead.trans h.noRead
    noWrite := hframe.cancelWrite.trans h.noWrite }
  rw [← Option.some.inj hr']
  exact ReadCall.Counts.advance hcounts h.max_lt (Nat.min_le_right _ _) hout

/-- A read that returns hands its block on, if there is one. -/
theorem Flowing.readReturns (h : Flowing bufferSize s) {r : ReadCall}
    (hpc : s.worker = .leave r false) :
    Flowing bufferSize { s with
      m_Buffer := { s.m_Buffer with m_IsCancelRead := false }
      worker := if 0 < r.readCount then .deliver r else .canLoop } := by
  have hstream := h.stream
  obtain ⟨hcount, -⟩ := h.counts r (by rw [hpc]; rfl)
  rw [hpc] at hstream
  by_cases hpos : 0 < r.readCount
  · rw [if_pos hpos]
    exact { h with
      ring := h.ring.setFlags _ _ _
      stream := hstream
      counts := fun r' hr' => h.counts r' (by rw [hpc]; exact hr')
      unthrown := trivial
      noRead := rfl }
  · have hnil : r.buffer = [] := List.eq_nil_of_length_eq_zero (by omega)
    have hstream' : s.delivered.flatten ++ [] ++ s.m_Buffer.content = s.accepted := hnil ▸ hstream
    rw [if_neg hpos]
    exact { h with
      ring := h.ring.setFlags _ _ _
      stream := hstream'
      counts := nofun
      unthrown := trivial
      noRead := rfl }

/-- Passing the block to the source moves it from the worker to what is delivered. -/
theorem Flowing.delivers (h : Flowing bufferSize s) {r : ReadCall} (hpc : s.worker = .deliver r)
    (ends : Except Exn Unit) :
    Flowing bufferSize { s with
      delivered := s.delivered ++ [r.buffer.take r.readCount]
      worker := match ends with
        | .ok _ => .canLoop
        | .error e => .catching e } := by
  have hstream := h.stream
  obtain ⟨hcount, -⟩ := h.counts r (by rw [hpc]; rfl)
  rw [hpc] at hstream
  have htake : r.buffer.take r.readCount = r.buffer := List.take_of_length_le (by omega)
  have hmoved : (s.delivered ++ [r.buffer.take r.readCount]).flatten ++ [] ++ s.m_Buffer.content =
      s.accepted := by
    rw [htake, List.flatten_append, List.flatten_singleton, List.append_nil]
    exact hstream
  cases ends with
  | ok _ => exact { h with stream := hmoved, counts := nofun, unthrown := trivial }
  | error e => exact { h with stream := hmoved, counts := nofun, unthrown := trivial }

/-- Without a cancel there is none in progress. -/
theorem Flowing.no_canceller (h : Flowing bufferSize s) {i : Nat} {ops : List CancelOp} :
    s.cancellers[i]? ≠ some ops := by
  rw [h.noCancellers]
  nofun

theorem Flowing.no_closer (h : Flowing bufferSize s) {op : CancelOp} {ops : List CancelOp} :
    s.closing ≠ op :: ops := by
  rw [h.noClosing]
  nofun

/-- **One step** of a run without a cancel keeps the invariant, as long as no index sum wraps. -/
theorem step_flowing {a : Action} (h : Flowing bufferSize s) (hc : a.isCancel = false)
    (hw : s.NoWrap a)
    (hs : step s a = some t) : Flowing bufferSize t := by
  cases step_moves hs with
  | queues | WaitTillSourceIdeal | waiterWaits | returns | wakeWaiter => exact { h with }
  | refuses => exact h
  | locksWrite i buffer hpc hq =>
    have hwritten := h.written
    rw [hpc] at hwritten
    refine { h with written := ?_, done := trivial }
    show s.accepted ++ buffer = (s.calls ++ [buffer]).flatten
    rw [List.flatten_append, List.flatten_singleton, ← hwritten]
    simp [WriterPc.rest]
  | writesOn buffer hpc | writerWaits buffer hpc => exact h.setWriter (by rw [hpc]; rfl) trivial
  | writeEnds buffer hpc hend =>
    have hnil : buffer = [] := by
      by_contra hne
      have hset := hend hne
      rw [h.noWrite] at hset
      cases hset
    exact h.setWriter (by rw [hpc]; rfl) ⟨hnil, rfl⟩
  | writeThrows buffer hpc hflag =>
    rw [h.noWrite] at hflag
    cases hflag
  | stores buffer hpc hroom => exact h.stores hpc (hw buffer hpc)
  | notifiesRead buffer hpc => exact h.notifyWorker.setWriter (by rw [hpc]; rfl) trivial
  | writerLeaves buffer thrown hpc =>
    have hwritten := h.written
    have hdone := h.done
    rw [hpc] at hwritten hdone
    obtain ⟨rfl, -⟩ := hdone
    exact { h with
      ring := h.ring.setFlags _ _ _
      written := hwritten
      done := trivial
      noWrite := rfl }
  | wakeWriter => exact h.notifyWriter
  | loops hpc hgo =>
    have hstream := h.stream
    rw [hpc] at hstream
    refine { h with stream := hstream, counts := ?_, unthrown := trivial }
    intro r hr
    obtain rfl : ⟨[], 0, s.m_MaxSize⟩ = r := Option.some.inj hr
    exact ⟨rfl, Nat.zero_add _⟩
  | loopEnds hpc => exact h.setWorker (by rw [hpc]; rfl) trivial
  | readsOn r hpc | workerWaits r hpc => exact h.setWorker (by rw [hpc]; rfl) trivial
  | readEnds r hpc => exact h.setWorker (by rw [hpc]; rfl) rfl
  | readThrows r hpc hflag =>
    rw [h.noRead] at hflag
    cases hflag
  | takes r hpc hdata => exact h.takes hpc (hw r hpc)
  | notifiesWrite r hpc => exact h.notifyWriter.setWorker (by rw [hpc]; rfl) trivial
  | notifiesWait r hpc =>
    exact { h.setWorker (by rw [hpc]; rfl : (WorkerPc.test r).call = _) trivial with }
  | readCancelled r hpc =>
    have hthrown := h.unthrown
    rw [hpc] at hthrown
    cases hthrown
  | readReturns r hpc => exact h.readReturns hpc
  | catches e m_status hpc hexit =>
    exact { h.setWorker (by rw [hpc]; rfl : WorkerPc.ended.call = _) trivial with }
  | terminates => exact { h with }
  | wakeWorker => exact h.notifyWorker
  | delivers r ends hpc => exact h.delivers hpc ends
  | passes | waitThrows => exact { h with ring := h.ring.setFlags _ _ _ }
  | Cancel | Close => cases hc
  | cancels i op ops hop => exact absurd hop h.no_canceller
  | closes op ops hop => exact absurd hop h.no_closer

/-- A critical section whose index sum wraps breaks the ring's indices. -/
theorem step_not_intact {a : Action} (h : Flowing bufferSize s) (hw : ¬ s.NoWrap a)
    (hs : step s a = some t) : ¬ t.Intact := by
  unfold step at hs
  by_cases hterm : s.terminated = true
  · simp [hterm] at hs
  rw [if_neg hterm] at hs
  obtain ⟨hdl, hst, hend, -⟩ := h.ring.indexed
  have hsz := h.ring.size_lt
  cases a with
  | writer =>
    simp only [NoWrap, not_forall, Nat.not_lt] at hw
    obtain ⟨buffer, hpc, hsum⟩ := hw
    have hlen := h.ring.writeLen_eq buffer.length
    have hroom : 0 < subU32 s.m_Buffer.m_Size s.m_Buffer.m_DataLen :=
      h.ring.room_iff.mpr (by omega)
    simp only [writerStep, hpc, h.noWrite, if_neg Bool.false_ne_true, if_pos hroom,
      Option.some.injEq] at hs
    subst hs
    exact fun hbad => WaitingBuffer.WriteInternal_wraps h.ring hsum hbad.indexed
  | worker =>
    simp only [NoWrap, not_forall, Nat.not_lt] at hw
    obtain ⟨r, hpc, hsum⟩ := hw
    have hlen : s.m_Buffer.readLen r.len ≤ s.m_Buffer.m_DataLen := Nat.min_le_left _ _
    have hdata : 0 < s.m_Buffer.m_DataLen := by omega
    simp only [workerStep, hpc, h.noRead, if_neg Bool.false_ne_true, if_pos hdata,
      Option.some.injEq] at hs
    subst hs
    exact fun hbad => WaitingBuffer.ReadInternal_wraps h.ring hsum hbad.indexed
  | _ => exact absurd trivial hw

/-- **The stream is intact throughout a run iff no index sum wraps in it**, for every ring and
package sizes and every schedule without a cancel. -/
theorem intact_iff_no_wrap (fresh : Mem UInt8) {maxPkgSize minPkgSize : Nat}
    (h0 : 0 < bufferSize) (hsize : bufferSize < 2 ^ 32) (hmax : maxPkgSize < 2 ^ 32)
    {as : List Action} (hc : ∀ a ∈ as, a.isCancel = false)
    (hrun : run step (new fresh bufferSize maxPkgSize minPkgSize) as = some t) :
    Meets step NoWrap (new fresh bufferSize maxPkgSize minPkgSize) as ↔
      Along step Intact (new fresh bufferSize maxPkgSize minPkgSize) as :=
  meets_iff_along (fun _ h => h.intact) (fun _ _ _ h hc hw hs => step_flowing h hc hw hs)
    (fun _ _ _ h _ hw hs => step_not_intact h hw hs) (new_flowing h0 hsize hmax) hc hrun

/-- In a ring of at most `2 ^ 31` cells the stream is intact throughout every run without a
cancel. -/
theorem intact_of_small (fresh : Mem UInt8) {maxPkgSize minPkgSize : Nat}
    (h0 : 0 < bufferSize) (hsize : bufferSize ≤ 2 ^ 31) (hmax : maxPkgSize < 2 ^ 32)
    {as : List Action} (hc : ∀ a ∈ as, a.isCancel = false) :
    Along step Intact (new fresh bufferSize maxPkgSize minPkgSize) as := by
  refine along_of_invariant (fun _ h => h.intact) ?_ (new_flowing h0 (by omega) hmax) hc
  intro s a t h ha hs
  refine step_flowing h ha ?_ hs
  have hnowrap := WaitingBuffer.no_wrap_of_small h.ring (h.size ▸ hsize)
  cases a with
  | writer => exact fun buffer _ => (hnowrap buffer.length).1
  | worker => exact fun r _ => (hnowrap r.len).2
  | _ => trivial

/-- A write longer than its ring, blocked until the worker has taken the first part out. -/
theorem intact_iff_no_wrap_blocked :
    let s₀ := new (fun _ => 0) 2 4 1
    let as : List Action :=
      [.WriteBytes [1, 2, 3], .lockWrite 0, .writer, .writer, .writer, .writer, .writer, .worker,
        .worker, .worker, .worker, .worker, .worker, .worker, .source (.ok ()), .writer, .writer]
    ∃ t, run step s₀ as = some t ∧ t.delivered = [[1, 2]] ∧ t.m_Buffer.content = [3] ∧
      Meets step NoWrap s₀ as := by
  intro s₀ as
  have hc : ∀ a ∈ as, a.isCancel = false := by simp [as, Action.isCancel]
  have hobs : (run step s₀ as).map (fun t => (t.delivered, t.m_Buffer.content)) =
      some ([[1, 2]], [3]) := by decide
  obtain ⟨t, ht, hseen⟩ := Option.map_eq_some_iff.mp hobs
  obtain ⟨hdelivered, hcontent⟩ := Prod.mk.inj hseen
  refine ⟨t, ht, hdelivered, hcontent, ?_⟩
  exact (intact_iff_no_wrap (fun _ => 0) (by omega) (by omega) (by omega) hc ht).mpr
    (intact_of_small (fun _ => 0) (by omega) (by omega) (by omega) hc)

/-! ## A ring in which a sum wraps -/

/-- The object with nobody in a call but the worker, its packages from one to four bytes. -/
def between (w : WaitingBuffer) (worker : WorkerPc) (calls : List Bytes) (accepted : Bytes) :
    AsyncWriter where
  m_Buffer := w
  m_MaxSize := 4
  m_MinSize := 1
  m_status := .Status_Started
  queued := []
  writer := .idle
  worker := worker
  waiters := []
  cancellers := []
  closing := []
  terminated := false
  calls := calls
  accepted := accepted
  delivered := []

/-- A call of `WriteBytes` up to the end of its first critical section. -/
def storing (buffer : Bytes) : List Action :=
  [.WriteBytes buffer, .lockWrite 0, .writer, .writer]

/-- The rest of a call that has stored everything. -/
def returning : List Action := [.writer, .writer, .writer]

/-- The worker up to the end of its first critical section. -/
def taking : List Action := [.worker, .worker, .worker]

theorem storing_noCancel (buffer : Bytes) : ∀ a ∈ storing buffer, a.isCancel = false := by
  simp [storing, Action.isCancel]

theorem returning_noCancel : ∀ a ∈ returning, a.isCancel = false := by
  simp [returning, Action.isCancel]

theorem taking_noCancel : ∀ a ∈ taking, a.isCancel = false := by
  simp [taking, Action.isCancel]

/-- A ring with these indices and no cancel pending. -/
structure At (w : WaitingBuffer) (size start e len : Nat) : Prop where
  size_eq : w.m_Size = size
  start_eq : w.m_Start = start
  end_eq : w.m_End = e
  len_eq : w.m_DataLen = len
  noRead : w.m_IsCancelRead = false
  noWrite : w.m_IsCancelWrite = false

variable {w : WaitingBuffer} {size start e len : Nat} {buffer : Bytes}

/-- Storing a string for which there is room. -/
theorem storing_run (h : At w size start e len) (hsize : size < 2 ^ 32) (hpos : 0 < buffer.length)
    (hlen : buffer.length < 2 ^ 31) (hroom : len + buffer.length ≤ size) (worker : WorkerPc)
    (calls : List Bytes) (accepted : Bytes) :
    ∃ w' calls' accepted', run step (between w worker calls accepted) (storing buffer) =
        some { between w' worker calls' accepted' with writer := .notify [] } ∧
      At w' size start (u32 (e + buffer.length) % size) (len + buffer.length) := by
  have hlen' : ¬ 2 ^ 31 ≤ buffer.length := by omega
  have hne : buffer ≠ [] := List.ne_nil_of_length_pos hpos
  have hsub : subU32 w.m_Size w.m_DataLen = size - len := by
    rw [h.size_eq, h.len_eq, subU32_of_le hsize (by omega)]
  have hspace : 0 < subU32 w.m_Size w.m_DataLen := by omega
  have hall : w.writeLen buffer.length = buffer.length := by
    unfold WaitingBuffer.writeLen
    omega
  have hframe := w.WriteInternal_frame buffer buffer.length
  refine ⟨(w.WriteInternal buffer buffer.length).2, calls ++ [buffer], accepted ++ buffer, ?_, ?_⟩
  · have hrunning : AsyncBase.IsAsyncBaseRunning .Status_Started = true := rfl
    have hcount : (w.WriteInternal buffer buffer.length).1 = buffer.length := hall
    simp only [storing, run, step, between, Bool.false_eq_true, if_false, if_neg hlen',
      if_pos hrunning, List.nil_append, List.getElem?_cons_zero, List.eraseIdx_cons_zero, writerStep,
      ne_eq, hne, not_false_eq_true, and_self, if_true, h.noWrite, if_pos hspace, hcount,
      List.take_length, List.drop_length]
  · refine ⟨hframe.size.trans h.size_eq, ?_, ?_, ?_, hframe.cancelRead.trans h.noRead,
      hframe.cancelWrite.trans h.noWrite⟩
    · exact (w.putIn_m_Start _ _).trans h.start_eq
    · show u32 (w.m_End + w.writeLen buffer.length) % w.m_Size = _
      rw [hall, h.end_eq, h.size_eq]
    · show u32 (w.m_DataLen + w.writeLen buffer.length) = _
      rw [hall, h.len_eq, u32_of_lt (by omega)]

/-- A call of `WriteBytes` from its start to its end. -/
theorem stored_run (h : At w size start e len) (hsize : size < 2 ^ 32) (hpos : 0 < buffer.length)
    (hlen : buffer.length < 2 ^ 31) (hroom : len + buffer.length ≤ size)
    (calls : List Bytes) (accepted : Bytes) :
    ∃ w' calls' accepted', run step (between w .canLoop calls accepted)
        (storing buffer ++ returning) = some (between w' .canLoop calls' accepted') ∧
      At w' size start (u32 (e + buffer.length) % size) (len + buffer.length) := by
  obtain ⟨w', calls', accepted', hrun, hat⟩ :=
    storing_run h hsize hpos hlen hroom .canLoop calls accepted
  refine ⟨{ w' with m_IsCancelWrite := false }, calls', accepted', run_append.mpr ⟨_, hrun, ?_⟩,
    ⟨hat.size_eq, hat.start_eq, hat.end_eq, hat.len_eq, hat.noRead, rfl⟩⟩
  simp [returning, run, step, between, writerStep, WorkerPc.notified]

/-- A read of the four bytes of a package. -/
theorem taking_run (h : At w size start e len) (hdata : 4 ≤ len) (hlen : len < 2 ^ 32)
    (calls : List Bytes) (accepted : Bytes) :
    ∃ w' r, run step (between w .canLoop calls accepted) taking =
        some (between w' (.notifyWrite r) calls accepted) ∧
      At w' size (u32 (start + 4) % size) e (len - 4) := by
  have hpos : 0 < w.m_DataLen := by rw [h.len_eq]; omega
  have hall : w.readLen 4 = 4 := by
    unfold WaitingBuffer.readLen
    rw [h.len_eq, Nat.min_eq_right hdata]
  have hframe := w.ReadInternal_frame 4
  refine ⟨(w.ReadInternal 4).2.2, ⟨(w.ReadInternal 4).1, u32 (0 + (w.ReadInternal 4).2.1),
    subU32 4 (w.ReadInternal 4).2.1⟩, ?_, ?_⟩
  · simp [taking, run, step, between, workerStep, AsyncBase.CanLoopContinue, h.noRead, hpos]
  · refine ⟨hframe.size.trans h.size_eq, ?_, ?_, ?_, hframe.cancelRead.trans h.noRead,
      hframe.cancelWrite.trans h.noWrite⟩
    · show u32 (w.m_Start + w.readLen 4) % w.m_Size = _
      rw [hall, h.start_eq, h.size_eq]
    · exact (w.takeOut_m_End _).trans h.end_eq
    · show subU32 w.m_DataLen (w.readLen 4) = _
      rw [hall, h.len_eq, subU32_of_le hlen hdata]

/-- **A wrapped index sum.** In a ring of `2 ^ 32 - 1` bytes, after two writes of `2 ^ 31 - 1`
bytes and a read of four, a write of two bytes leaves `m_End` at `0` where the content ends at
`1`. -/
theorem write_past_wrap :
    let x : Bytes := List.replicate (2 ^ 31 - 1) 0
    let as := (storing x ++ returning) ++ ((storing x ++ returning) ++ (taking ++ storing [1, 2]))
    ∃ t, run step (new (fun _ => 0) (2 ^ 32 - 1) 4 1) as = some t ∧
      (∀ a ∈ as, a.isCancel = false) ∧ t.m_Buffer.m_End = 0 ∧
      (t.m_Buffer.m_Start + t.m_Buffer.m_DataLen) % t.m_Buffer.m_Size = 1 ∧ ¬ t.Intact := by
  intro x as
  have hx : x.length = 2 ^ 31 - 1 := List.length_replicate
  have h₀ : At (.new (fun _ => 0) (2 ^ 32 - 1)) (2 ^ 32 - 1) 0 0 0 := ⟨rfl, rfl, rfl, rfl, rfl, rfl⟩
  obtain ⟨w₁, c₁, a₁, hrun₁, h₁⟩ :=
    stored_run h₀ (by omega) (by omega) (by omega) (by omega : 0 + x.length ≤ _) [] []
  obtain ⟨w₂, c₂, a₂, hrun₂, h₂⟩ :=
    stored_run h₁ (by omega) (by omega) (by omega) (by omega : 0 + x.length + x.length ≤ _) c₁ a₁
  obtain ⟨w₃, r, hrun₃, h₃⟩ := taking_run h₂ (by omega) (by omega) c₂ a₂
  have hpair : ([1, 2] : Bytes).length = 2 := rfl
  have hroom : 0 + x.length + x.length - 4 + ([1, 2] : Bytes).length ≤ 2 ^ 32 - 1 := by omega
  obtain ⟨w₄, c₄, a₄, hrun₄, h₄⟩ :=
    storing_run h₃ (by omega) (by omega) (by omega) hroom (.notifyWrite r) c₂ a₂
  rw [hx] at h₄
  have hend : w₄.m_End = 0 := h₄.end_eq.trans (by decide)
  have hcontent : (w₄.m_Start + w₄.m_DataLen) % w₄.m_Size = 1 := by
    rw [h₄.start_eq, h₄.len_eq, h₄.size_eq]
    decide
  let t := { between w₄ (.notifyWrite r) c₄ a₄ with writer := .notify [] }
  refine ⟨t, ?_, ?_, hend, hcontent, ?_⟩
  · exact run_append.mpr ⟨_, hrun₁, run_append.mpr ⟨_, hrun₂, run_append.mpr ⟨_, hrun₃, hrun₄⟩⟩⟩
  · intro a ha
    simp only [as, List.mem_append] at ha
    rcases ha with (h | h) | (h | h) | h | h
    · exact storing_noCancel x a h
    · exact returning_noCancel a h
    · exact storing_noCancel x a h
    · exact returning_noCancel a h
    · exact taking_noCancel a h
    · exact storing_noCancel [1, 2] a h
  · intro hbad
    have hidx : w₄.m_End = (w₄.m_Start + w₄.m_DataLen) % w₄.m_Size := hbad.indexed.end_eq
    rw [hcontent, hend] at hidx
    exact absurd hidx (by decide)

end AsyncWriter

end TiraRdp
