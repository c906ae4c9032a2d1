import TiraRdp.Redirector.AudioSocketReader
import TiraRdp.Redirector.RecordReader
import TiraRdp.Utility.AsyncBase

/-!
# Stopping a socket reader

The worker of a reader of the redirector and a thread in its `Stop`, as a system. The worker is in
`Workloop` of one of the record readers (`HIDSocketReader.cpp:25-47`,
`TouchAndPenMsgReader.cpp:30-58`, `ScreenDataChannel.cpp:24-46`) or of `AudioSocketReader`
(`AudioSocketReader.cpp:26-57`), a call of `Recv` (`Socket.cpp:262-277`, `:376-385`) being the test
of `m_IsCancelRead`, `select()`, the end of the scope that resets the flag, and `recv()`. `Stop` of
the record readers is `StopAsyncBase`; that of `AudioSocketReader` calls `CancelRecv` first.
`UnBlockWorkingThread` of all of them is the empty one of `AsyncBase`.

The peer has sent `incoming` and sends nothing more; what is in the buffers decides nothing but the
size of an audio block. Nothing pauses a reader.

Results: a run goes through no state in which `Stop` joins a worker that waits in `Recv` for what
will not come, exactly when `StopAsyncBase` is not called on such a worker and no `Recv` behind it
takes the last byte there is and waits for more (`never_hangs_iff`); such a state is left only when
`select()` fails (`hangs_on`).
-/

namespace TiraRdp

open Lib Lib.Lts

inductive SocketReader where
  | record (reader : RecordReader)
  | AudioSocketReader
  deriving Repr, DecidableEq

/-- A call of `Recv` in one of the loops. -/
inductive RecvCall where
  | record (reader : RecordReader)
  /-- of the size of an audio block -/
  | size
  /-- of its data -/
  | data
  deriving Repr, DecidableEq

/-- Where the worker is. -/
inductive ReaderPc where
  | canLoop
  /-- in `WaitForReadReady`, about to test `m_IsCancelRead` -/
  | test (call : RecvCall)
  | select (call : RecvCall)
  /-- at the end of the scope of `WaitForReadReady` -/
  | leave (call : RecvCall) (thrown : Bool)
  | recv (call : RecvCall)
  /-- in the event -/
  | deliver
  | ended
  deriving Repr, DecidableEq

/-- The `Recv` at the head of the loop. -/
def SocketReader.first : SocketReader → RecvCall
  | .record reader => .record reader
  | .AudioSocketReader => .size

/-- In the wait of `Recv`. -/
def ReaderPc.waits : ReaderPc → Bool
  | .test _ => true
  | .select _ => true
  | _ => false

/-- Where the thread that stops the reader is. -/
inductive StopPc where
  | running
  /-- in `Stop`, behind its `CancelRecv` -/
  | cancelled
  /-- in `StopAsyncBase`, which has set `m_status` -/
  | joining
  | done
  deriving Repr, DecidableEq

structure ReaderStop where
  reader : SocketReader
  m_status : Ti_Worker_Status
  m_IsCancelRead : Bool
  incoming : Bytes
  size : Nat
  len : Nat
  worker : ReaderPc
  stop : StopPc
  deriving Repr, DecidableEq

namespace ReaderStop

/-- A started reader, and all that is sent to it. -/
def initial (reader : SocketReader) (incoming : Bytes) : ReaderStop where
  reader := reader
  m_status := (AsyncBase.StartAsyncBase .Status_Stopped).1
  m_IsCancelRead := false
  incoming := incoming
  size := 0
  len := 0
  worker := .canLoop
  stop := .running

inductive Action where
  | worker
  | selectFails
  | recv (answer : SocketReturn)
  /-- the event throws an `ExceptionWithString` -/
  | eventThrows
  | CancelRecv
  | StopAsyncBase
  | joined
  deriving Repr, DecidableEq

/-- The number of bytes the call asks for. -/
def request (s : ReaderStop) : RecvCall → Nat
  | .record reader => reader.Workloop.request s.len
  | .size => 4
  | .data => AudioSocketReader.request s.size s.len

/-- What `recv()` puts into the buffer; on a negative length it fails. -/
def received (s : ReaderStop) (call : RecvCall) : SocketReturn → Bytes
  | .count n => if s.request call < 2 ^ 31 then s.incoming.take (min n (s.request call)) else []
  | .socketError _ => []

/-- An exception of `Recv` ends the loop: caught in `AudioSocketReader`, else by the thread. -/
def throws (s : ReaderStop) : ReaderStop :=
  match s.reader with
  | .AudioSocketReader => { s with worker := .ended }
  | .record _ => { s with m_status := .Status_Error, worker := .ended }

/-- The loop behind a `Recv` that brought these bytes. -/
def got (s : ReaderStop) (call : RecvCall) (bytes : Bytes) : ReaderStop :=
  match call with
  | .record reader =>
    if s.len + bytes.length = reader.Workloop.sizeofRecord then
      { s with len := 0, worker := .deliver }
    else { s with len := s.len + bytes.length, worker := .canLoop }
  | .size => { s with size := ofLe bytes, len := 0, worker := .test .data }
  | .data =>
    { s with
      len := s.len + bytes.length
      worker := if s.len + bytes.length = s.size then .deliver else .test .data }

/-- The next step of the worker, its calls of `recv()` apart. -/
def workerStep (s : ReaderStop) : Option ReaderStop :=
  match s.worker with
  | .canLoop =>
    match AsyncBase.CanLoopContinue s.m_status with
    | none => none
    | some true => some { s with worker := .test s.reader.first }
    | some false => some { s with worker := .ended }
  | .test call =>
    some { s with worker := if s.m_IsCancelRead then .leave call true else .select call }
  | .select call =>
    -- nothing to read: `select()` returns after `WAITING_TIME`
    some { s with worker := if s.incoming = [] then .test call else .leave call false }
  | .leave call thrown =>
    if thrown then some ({ s with m_IsCancelRead := false }).throws
    else some { s with m_IsCancelRead := false, worker := .recv call }
  | .recv _ => none
  | .deliver => some { s with worker := .canLoop }
  | .ended => none

def step (s : ReaderStop) : Action → Option ReaderStop
  | .worker => s.workerStep
  | .selectFails =>
    match s.worker with
    | .select call => some { s with worker := .leave call true }
    | _ => none
  | .recv answer =>
    match s.worker with
    | .recv call =>
      if s.received call answer = [] then some s.throws
      else
        some (({ s with incoming := s.incoming.drop (s.received call answer).length }).got call
          (s.received call answer))
    | _ => none
  | .eventThrows =>
    if s.worker = .deliver then some { s with m_status := .Status_Error, worker := .ended }
    else none
  | .CancelRecv =>
    if s.stop = .running ∧ s.reader = .AudioSocketReader then
      some { s with m_IsCancelRead := true, stop := .cancelled }
    else none
  | .StopAsyncBase =>
    -- `AudioSocketReader::Stop` has cancelled
    if s.stop = (if s.reader = .AudioSocketReader then .cancelled else .running) then
      some { s with m_status := (AsyncBase.StopAsyncBase s.m_status).1, stop := .joining }
    else none
  | .joined =>
    if s.stop = .joining ∧ s.worker = .ended then some { s with stop := .done } else none

/-- The worker waits in `Recv`, there is nothing to read and no cancel is pending. -/
def Starved (s : ReaderStop) : Prop :=
  s.worker.waits = true ∧ s.m_IsCancelRead = false ∧ s.incoming = []

/-- `Stop` joins the worker, which waits for what will not come. -/
def Hangs (s : ReaderStop) : Prop := s.stop = .joining ∧ s.Starved

/-- The loop does not wait for more of the same block. -/
def Completes (s : ReaderStop) (bytes : Bytes) : RecvCall → Prop
  | .record _ => True
  | .size => False
  | .data => s.len + bytes.length = s.size

/-- The steps that leave no worker behind: `StopAsyncBase` is not called on one that waits for
nothing, and no `Recv` behind it, with no cancel pending, takes the last byte and waits for more. -/
def LeavesNone (s : ReaderStop) : Action → Prop
  | .StopAsyncBase => ¬ s.Starved
  | .recv answer => s.stop = .joining → s.m_IsCancelRead = false → ∀ call, s.worker = .recv call →
      s.incoming ≠ [] → s.received call answer = s.incoming → s.Completes s.incoming call
  | _ => True

instance (s : ReaderStop) : Decidable s.Starved :=
  inferInstanceAs (Decidable (_ ∧ _ ∧ _))

instance (s : ReaderStop) : Decidable s.Hangs :=
  inferInstanceAs (Decidable (_ ∧ _))

instance (s : ReaderStop) (bytes : Bytes) : DecidablePred (s.Completes bytes)
  | .record _ => .isTrue trivial
  | .size => .isFalse id
  | .data => inferInstanceAs (Decidable (_ = _))

instance (s : ReaderStop) : DecidablePred s.LeavesNone
  | .StopAsyncBase => inferInstanceAs (Decidable (¬ _))
  | .recv answer =>
    match hpc : s.worker with
    | .recv call => decidable_of_iff
        (s.stop = .joining → s.m_IsCancelRead = false → s.incoming ≠ [] →
          s.received call answer = s.incoming → s.Completes s.incoming call)
        (by simp [LeavesNone, hpc])
    | .canLoop | .test _ | .select _ | .leave _ _ | .deliver | .ended =>
      .isTrue (by simp [LeavesNone, hpc])
  | .worker | .selectFails | .eventThrows | .CancelRecv | .joined => .isTrue trivial

/-! ## What a step can be -/

inductive Moves (s : ReaderStop) : Action → ReaderStop → Prop
  | loops (hpc : s.worker = .canLoop) (hgo : AsyncBase.CanLoopContinue s.m_status = some true) :
    Moves s .worker { s with worker := .test s.reader.first }
  | stops (hpc : s.worker = .canLoop) (hgo : AsyncBase.CanLoopContinue s.m_status = some false) :
    Moves s .worker { s with worker := .ended }
  | cancelled (call : RecvCall) (hpc : s.worker = .test call) (hflag : s.m_IsCancelRead = true) :
    Moves s .worker { s with worker := .leave call true }
  | selects (call : RecvCall) (hpc : s.worker = .test call) (hflag : s.m_IsCancelRead = false) :
    Moves s .worker { s with worker := .select call }
  | timesOut (call : RecvCall) (hpc : s.worker = .select call) (hnone : s.incoming = []) :
    Moves s .worker { s with worker := .test call }
  | ready (call : RecvCall) (hpc : s.worker = .select call) (hsome : s.incoming ≠ []) :
    Moves s .worker { s with worker := .leave call false }
  | throws (call : RecvCall) (hpc : s.worker = .leave call true) :
    Moves s .worker ({ s with m_IsCancelRead := false }).throws
  | returns (call : RecvCall) (hpc : s.worker = .leave call false) :
    Moves s .worker { s with m_IsCancelRead := false, worker := .recv call }
  | delivered (hpc : s.worker = .deliver) : Moves s .worker { s with worker := .canLoop }
  | selectFails (call : RecvCall) (hpc : s.worker = .select call) :
    Moves s .selectFails { s with worker := .leave call true }
  | recvThrows (call : RecvCall) (answer : SocketReturn) (hpc : s.worker = .recv call)
      (hnone : s.received call answer = []) : Moves s (.recv answer) s.throws
  | recvs (call : RecvCall) (answer : SocketReturn) (hpc : s.worker = .recv call)
      (hsome : s.received call answer ≠ []) :
    Moves s (.recv answer)
      (({ s with incoming := s.incoming.drop (s.received call answer).length }).got call
        (s.received call answer))
  | eventThrows (hpc : s.worker = .deliver) :
    Moves s .eventThrows { s with m_status := .Status_Error, worker := .ended }
  | CancelRecv (hstop : s.stop = .running) :
    Moves s .CancelRecv { s with m_IsCancelRead := true, stop := .cancelled }
  | StopAsyncBase (hstop : s.stop ≠ .joining) :
    Moves s .StopAsyncBase { s with m_status := .Status_Stopped, stop := .joining }
  | joined (hstop : s.stop = .joining) (hended : s.worker = .ended) :
    Moves s .joined { s with stop := .done }

theorem workerStep_moves {s s' : ReaderStop} (hs : s.workerStep = some s') :
    Moves s .worker s' := by
  unfold workerStep at hs
  cases hpc : s.worker with
  | canLoop =>
    cases hgo : AsyncBase.CanLoopContinue s.m_status with
    | none => simp [hpc, hgo] at hs
    | some go =>
      cases go with
      | true =>
        simp only [hpc, hgo, Option.some.injEq] at hs
        exact hs ▸ .loops hpc hgo
      | false =>
        simp only [hpc, hgo, Option.some.injEq] at hs
        exact hs ▸ .stops hpc hgo
  | test call =>
    simp only [hpc, Option.some.injEq] at hs
    by_cases hflag : s.m_IsCancelRead = true
    · rw [if_pos hflag] at hs
      exact hs ▸ .cancelled call hpc hflag
    · rw [if_neg hflag] at hs
      exact hs ▸ .selects call hpc (by simpa using hflag)
  | select call =>
    simp only [hpc, Option.some.injEq] at hs
    by_cases hnone : s.incoming = []
    · rw [if_pos hnone] at hs
      exact hs ▸ .timesOut call hpc hnone
    · rw [if_neg hnone] at hs
      exact hs ▸ .ready call hpc hnone
  | leave call thrown =>
    cases thrown with
    | true =>
      simp only [hpc, if_true, Option.some.injEq] at hs
      exact hs ▸ .throws call hpc
    | false =>
      simp only [hpc, if_neg Bool.false_ne_true, Option.some.injEq] at hs
      exact hs ▸ .returns call hpc
  | recv call => simp [hpc] at hs
  | deliver =>
    simp only [hpc, Option.some.injEq] at hs
    exact hs ▸ .delivered hpc
  | ended => simp [hpc] at hs

theorem step_moves {s s' : ReaderStop} {a : Action} (hs : step s a = some s') : Moves s a s' := by
  unfold step at hs
  cases a with
  | worker => exact workerStep_moves hs
  | selectFails =>
    cases hpc : s.worker with
    | select call =>
      simp only [hpc, Option.some.injEq] at hs
      exact hs ▸ .selectFails call hpc
    | _ => simp [hpc] at hs
  | recv answer =>
    cases hpc : s.worker with
    | recv call =>
      simp only [hpc] at hs
      by_cases hnone : s.received call answer = []
      · rw [if_pos hnone] at hs
        exact Option.some.inj hs ▸ .recvThrows call answer hpc hnone
      · rw [if_neg hnone] at hs
        exact Option.some.inj hs ▸ .recvs call answer hpc hnone
    | _ => simp [hpc] at hs
  | eventThrows =>
    simp only [Option.ite_none_right_eq_some, Option.some.injEq] at hs
    exact hs.2 ▸ .eventThrows hs.1
  | CancelRecv =>
    simp only [Option.ite_none_right_eq_some, Option.some.injEq] at hs
    exact hs.2 ▸ .CancelRecv hs.1.1
  | StopAsyncBase =>
    simp only [Option.ite_none_right_eq_some, Option.some.injEq] at hs
    obtain ⟨hstop, hs⟩ := hs
    refine hs ▸ .StopAsyncBase ?_
    rw [hstop]
    split_ifs <;> nofun
  | joined =>
    simp only [Option.ite_none_right_eq_some, Option.some.injEq] at hs
    exact hs.2 ▸ .joined hs.1.1 hs.1.2

/-! ## Hanging -/

variable {s s' : ReaderStop} {a : Action}

/-- Behind `StopAsyncBase` the worker finds no way back into its loop. -/
def Told (s : ReaderStop) : Prop :=
  s.stop = .joining → AsyncBase.CanLoopContinue s.m_status = some false

theorem received_isPrefix (s : ReaderStop) (call : RecvCall) (answer : SocketReturn) :
    s.received call answer <+: s.incoming := by
  unfold received
  cases answer with
  | count n =>
    split_ifs
    · exact List.take_prefix _ _
    · exact List.nil_prefix
  | socketError error => exact List.nil_prefix

/-- Nothing is left exactly when everything was taken. -/
theorem drop_received (s : ReaderStop) (call : RecvCall) (answer : SocketReturn) :
    s.incoming.drop (s.received call answer).length = [] ↔ s.received call answer = s.incoming := by
  rw [List.drop_eq_nil_iff]
  constructor
  · intro hle
    exact (received_isPrefix s call answer).eq_of_length_le hle
  · intro heq
    exact Nat.le_of_eq (congrArg List.length heq.symm)

@[simp] theorem throws_stop (s : ReaderStop) : s.throws.stop = s.stop := by
  unfold throws
  split <;> rfl

@[simp] theorem throws_worker (s : ReaderStop) : s.throws.worker = .ended := by
  unfold throws
  split <;> rfl

theorem throws_m_status (s : ReaderStop) :
    s.throws.m_status = s.m_status ∨ s.throws.m_status = .Status_Error := by
  unfold throws
  split
  · exact .inl rfl
  · exact .inr rfl

/-- What a `Recv` leaves alone. -/
theorem got_frame (s : ReaderStop) (call : RecvCall) (bytes : Bytes) :
    ∃ size len worker, s.got call bytes = { s with size, len, worker } := by
  unfold got
  split
  · split_ifs
    · exact ⟨_, _, _, rfl⟩
    · exact ⟨_, _, _, rfl⟩
  · exact ⟨_, _, _, rfl⟩
  · exact ⟨_, _, _, rfl⟩

/-- What is left in the socket does not complete a block. -/
theorem Completes_incoming (s : ReaderStop) (incoming bytes : Bytes) (call : RecvCall) :
    Completes { s with incoming } bytes call ↔ s.Completes bytes call := by
  cases call <;> exact Iff.rfl

/-- The worker waits again unless the bytes complete what it reads. -/
theorem got_waits (s : ReaderStop) (call : RecvCall) (bytes : Bytes) :
    (s.got call bytes).worker.waits = true ↔ ¬ s.Completes bytes call := by
  cases call with
  | record reader =>
    unfold got
    dsimp only
    split_ifs <;> simp [Completes, ReaderPc.waits]
  | size => simp [got, Completes, ReaderPc.waits]
  | data =>
    unfold got
    dsimp only
    split_ifs with hdone <;> simp [Completes, ReaderPc.waits, hdone]

theorem Told.step (h : s.Told) (hs : step s a = some s') : s'.Told := by
  intro hstop
  cases step_moves hs with
  | throws call hpc =>
    rw [throws_stop] at hstop
    rcases throws_m_status { s with m_IsCancelRead := false } with hstatus | hstatus
    · rw [hstatus]
      exact h hstop
    · rw [hstatus]
      rfl
  | recvThrows call answer hpc hnone =>
    rw [throws_stop] at hstop
    rcases throws_m_status s with hstatus | hstatus
    · rw [hstatus]
      exact h hstop
    · rw [hstatus]
      rfl
  | recvs call answer hpc hsome =>
    obtain ⟨size, len, worker, hgot⟩ :=
      got_frame { s with incoming := s.incoming.drop (s.received call answer).length } call
        (s.received call answer)
    rw [hgot] at hstop ⊢
    exact h hstop
  | eventThrows hpc => rfl
  | StopAsyncBase hstop => rfl
  | CancelRecv hrunning => cases hstop
  | joined hjoining hended => cases hstop
  | _ => exact h hstop

/-- A step that leaves no worker behind. -/
theorem not_hangs_step (h : s.Told) (hfree : ¬ s.Hangs) (hok : s.LeavesNone a)
    (hs : step s a = some s') : ¬ s'.Hangs := by
  rintro ⟨hjoining, hwaits, hflag, hnothing⟩
  cases step_moves hs with
  | loops hpc hgo =>
    rw [h hjoining] at hgo
    cases hgo
  | selects call hpc => exact hfree ⟨hjoining, by rw [hpc]; rfl, hflag, hnothing⟩
  | timesOut call hpc => exact hfree ⟨hjoining, by rw [hpc]; rfl, hflag, hnothing⟩
  | throws call hpc =>
    rw [throws_worker] at hwaits
    cases hwaits
  | recvThrows call answer hpc hnone =>
    rw [throws_worker] at hwaits
    cases hwaits
  | recvs call answer hpc hsome =>
    obtain ⟨size, len, worker, hgot⟩ :=
      got_frame { s with incoming := s.incoming.drop (s.received call answer).length } call
        (s.received call answer)
    have hmore := (got_waits _ call _).mp hwaits
    rw [hgot] at hjoining hflag hnothing
    have hall := (drop_received s call answer).mp hnothing
    have hne : s.incoming ≠ [] := hall ▸ hsome
    rw [Completes_incoming, hall] at hmore
    exact hmore (hok hjoining hflag call hpc hne hall)
  | CancelRecv hrunning => cases hjoining
  | StopAsyncBase hstop => exact hok ⟨hwaits, hflag, hnothing⟩
  | joined hstop hended => cases hjoining
  | stops | cancelled | ready | returns | delivered | selectFails | eventThrows => cases hwaits

/-- A step that leaves a worker behind. -/
theorem hangs_of_not_leavesNone (hok : ¬ s.LeavesNone a) (hs : step s a = some s') : s'.Hangs := by
  cases step_moves hs with
  | recvThrows call answer hpc hnone =>
    simp only [LeavesNone, Classical.not_forall] at hok
    obtain ⟨-, -, call', hpc', hne, hall, -⟩ := hok
    rw [hpc, ReaderPc.recv.injEq] at hpc'
    rw [← hpc', hnone] at hall
    exact absurd hall.symm hne
  | recvs call answer hpc hsome =>
    simp only [LeavesNone, Classical.not_forall] at hok
    obtain ⟨hjoining, hflag, call', hpc', hne, hall, hmore⟩ := hok
    rw [hpc, ReaderPc.recv.injEq] at hpc'
    subst hpc'
    obtain ⟨size, len, worker, hgot⟩ :=
      got_frame { s with incoming := s.incoming.drop (s.received call answer).length } call
        (s.received call answer)
    have hwaits := (got_waits { s with incoming := s.incoming.drop (s.received call answer).length }
      call (s.received call answer)).mpr (by rwa [Completes_incoming, hall])
    have hnothing := (drop_received s call answer).mpr hall
    refine ⟨?_, hwaits, ?_, ?_⟩
    · rw [hgot]
      exact hjoining
    · rw [hgot]
      exact hflag
    · rw [hgot]
      exact hnothing
  | StopAsyncBase hstop => exact ⟨rfl, not_not.mp hok⟩
  | _ => exact absurd trivial hok

/-- **A hang lasts**: nothing but a failing `select()` ends it. -/
theorem hangs_on (h : s.Hangs) (ha : a ≠ .selectFails) (hs : step s a = some s') : s'.Hangs := by
  obtain ⟨hjoining, hwaits, hflag, hnothing⟩ := h
  cases step_moves hs with
  | cancelled call hpc htrue =>
    rw [hflag] at htrue
    cases htrue
  | selects call hpc => exact ⟨hjoining, rfl, hflag, hnothing⟩
  | timesOut call hpc => exact ⟨hjoining, rfl, hflag, hnothing⟩
  | ready call hpc hsome => exact absurd hnothing hsome
  | selectFails call hpc => exact absurd rfl ha
  | CancelRecv hrunning =>
    rw [hjoining] at hrunning
    cases hrunning
  | StopAsyncBase hstop => exact absurd hjoining hstop
  | loops hpc | stops hpc | throws _ hpc | returns _ hpc | delivered hpc | recvThrows _ _ hpc
  | recvs _ _ hpc | eventThrows hpc | joined _ hpc =>
    rw [hpc] at hwaits
    cases hwaits

theorem hangs_forever {as : List Action} (h : s.Hangs) (has : ∀ a ∈ as, a ≠ .selectFails) :
    Along step Hangs s as :=
  along_of_invariant (fun _ h => h) (fun _ _ _ h ha hs => hangs_on h ha hs) h has

/-- **`Stop` joins no worker that waits for nothing**, in any state of a run, exactly when
`StopAsyncBase` is not called on one and no `Recv` behind it makes one. -/
theorem never_hangs_iff (reader : SocketReader) (incoming : Bytes) (as : List Action)
    (s : ReaderStop)
    (hrun : run step (initial reader incoming) as = some s) :
    Meets step LeavesNone (initial reader incoming) as ↔
      Along step (fun s => ¬ s.Hangs) (initial reader incoming) as := by
  refine meets_iff_along (I := fun s => Told s ∧ ¬ s.Hangs) (p := fun _ => True) ?_ ?_ ?_ ?_
    (fun _ _ => trivial) hrun
  · rintro u ⟨-, hfree⟩
    exact hfree
  · rintro u a v ⟨hu, hfree⟩ - hok hs
    exact ⟨hu.step hs, not_hangs_step hu hfree hok hs⟩
  · rintro u a v - - hok hs
    exact not_not.mpr (hangs_of_not_leavesNone hok hs)
  · exact ⟨nofun, fun h => nomatch h.1⟩

/-- `AudioSocketReader` is stopped in its wait for the size of a block. -/
def stoppedWaiting : List Action :=
  [.worker, .worker, .CancelRecv, .StopAsyncBase, .worker, .worker, .worker, .joined]

theorem never_hangs_waiting :
    (run step (initial .AudioSocketReader []) stoppedWaiting).isSome = true ∧
      Along step (fun s => ¬ s.Hangs) (initial .AudioSocketReader []) stoppedWaiting := by
  have hsome : (run step (initial .AudioSocketReader []) stoppedWaiting).isSome = true := by decide
  obtain ⟨s, hs⟩ := Option.isSome_iff_exists.mp hsome
  exact ⟨hsome, (never_hangs_iff .AudioSocketReader [] stoppedWaiting s hs).mp (by decide)⟩

/-- The cancel of `AudioSocketReader` is lost when it comes between `select()` and the end of its
scope: here the last bytes sent are the size of a block. -/
example :
    (run step (initial .AudioSocketReader [1, 0, 0, 0])
      [.worker, .worker, .worker, .CancelRecv, .StopAsyncBase, .worker, .recv (.count 4)]).any
        (fun s => s.Hangs) = true := by
  decide

/-- `HIDSocketReader` waits in `Recv` when it is stopped. -/
theorem waiting_reader_hangs :
    ¬ ∀ (reader : SocketReader) (incoming : Bytes) (as : List Action) (s : ReaderStop),
      run step (initial reader incoming) as = some s → ¬ s.Hangs := by
  intro h
  have hend : (run step (initial (.record (.HIDSocketReader true)) [])
      [.worker, .worker, .StopAsyncBase]).any (fun s => s.Hangs) = true := by decide
  obtain ⟨s, hs, hhangs⟩ := run_of_any hend
  exact h _ _ _ s hs hhangs

end ReaderStop

end TiraRdp
