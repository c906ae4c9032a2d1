import Mathlib.Logic.Function.Basic
import TiraRdp.Lib.Lts
import TiraRdp.Lib.Locks
import TiraRdp.Utility.AsyncBase

/-!
# `AsyncBase` under threads

`common/utility/private/common/AsyncBase.cpp:5-106` as a system: any number of threads (`τ`) in
calls of `StartAsyncBase`, `StopAsyncBase`, `PauseAsyncBase` and `ResumeAsyncBase`, and the worker.
A lock, a test of `m_status` and a write to it are a step each, because the worker writes
`m_status` in its exception handler without any lock. `m_workingThread` is the thread object: it
names the worker until `reset`, also when the worker's function has ended.

The worker runs a `Workloop` of which nothing is assumed: between two calls of `CanLoopContinue` it
may return or throw at any time (`UnBlockWorkingThread` is one reason to throw), and it leaves when
`CanLoopContinue` answers false. A thread in the wait of `m_loopNotify` goes on when notified, or
spuriously. An exception that the thread function does not catch ends the process, and so does
`m_workingThread.reset` on a thread that was not joined.

Ghost fields: the threads in a call of `StartAsyncBase`; for a thread in `StopAsyncBase`, whether
no call of `StartAsyncBase` overlapped it.

Results: what a step can be, as a relation with a constructor for every branch (`step_moves`); each
mutex is held by the one party in a phase under it (`Locked.step`).
-/

namespace TiraRdp

open Lib Lib.Lts Lib.Locks

inductive Operation where
  | Start
  | Stop
  | Pause
  | Resume
  deriving Repr, DecidableEq

/-- Where a thread is in a call. -/
inductive CallPc where
  | outside
  /-- at `m_operationMutex` -/
  | enter (op : Operation)
  /-- under `m_operationMutex`, about to read `m_status` -/
  | test (op : Operation)
  /-- under `m_operationMutex`, about to write `m_status`, in which it has read `seen` -/
  | write (op : Operation) (seen : Ti_Worker_Status)
  /-- `StartAsyncBase` under `m_operationMutex`, at `m_threadOpMutex` -/
  | launch
  /-- `StartAsyncBase` under both -/
  | create
  /-- `StopAsyncBase` at `m_threadOpMutex` -/
  | reap
  /-- `StopAsyncBase` under `m_threadOpMutex`, in `join` if there is a thread -/
  | join
  /-- `StopAsyncBase` under `m_threadOpMutex`, about to return -/
  | leave
  deriving Repr, DecidableEq

namespace Operation

/-- The test of `m_status` at the head of an operation. -/
def acts : Operation → Ti_Worker_Status → Bool
  | .Start, m_status => m_status == .Status_Stopped || m_status == .Status_Paused
  | .Stop, m_status => m_status != .Status_Stopped
  | .Pause, m_status => m_status == .Status_Started
  | .Resume, m_status => m_status == .Status_Paused

/-- What it writes to `m_status` then. -/
def status : Operation → Ti_Worker_Status
  | .Start => .Status_Started
  | .Stop => .Status_Stopped
  | .Pause => .Status_Paused
  | .Resume => .Status_Started

/-- Where a call goes on without `m_operationMutex`. -/
def next : Operation → CallPc
  | .Stop => .reap
  | _ => .outside

/-- **A test and the write behind it** are the operation on the status. -/
theorem applied_eq (m_status : Ti_Worker_Status) :
    (AsyncBase.StartAsyncBase m_status).1 =
        (if Operation.Start.acts m_status then Operation.Start.status else m_status) ∧
      (AsyncBase.StopAsyncBase m_status).1 =
        (if Operation.Stop.acts m_status then Operation.Stop.status else m_status) ∧
      AsyncBase.PauseAsyncBase m_status =
        (if Operation.Pause.acts m_status then Operation.Pause.status else m_status) ∧
      AsyncBase.ResumeAsyncBase m_status =
        (if Operation.Resume.acts m_status then Operation.Resume.status else m_status) := by
  cases m_status <;> decide

end Operation

namespace CallPc

/-- The phases under `m_operationMutex`. -/
def underOperation : CallPc → Bool
  | .test _ => true
  | .write _ _ => true
  | .launch => true
  | .create => true
  | _ => false

/-- The phases under `m_threadOpMutex`. -/
def underThreadOp : CallPc → Bool
  | .create => true
  | .join => true
  | .leave => true
  | _ => false

/-- The phases of `StartAsyncBase`. -/
def inStart : CallPc → Bool
  | .enter .Start => true
  | .test .Start => true
  | .write .Start _ => true
  | .launch => true
  | .create => true
  | _ => false

/-- The phases of `StartAsyncBase` on the way to a new worker. -/
def launching : CallPc → Bool
  | .write .Start .Status_Stopped => true
  | .launch => true
  | .create => true
  | _ => false

/-- The phases of a start up to its write, when it has read a stopped object. -/
def fresh : CallPc → Bool
  | .enter .Start => true
  | .test .Start => true
  | .write .Start .Status_Stopped => true
  | _ => false

/-- About to write `m_status`. -/
def writing : CallPc → Bool
  | .write _ _ => true
  | _ => false

/-- The phases of `StopAsyncBase` behind its first block. -/
def stopping : CallPc → Bool
  | .reap => true
  | .join => true
  | .leave => true
  | _ => false

end CallPc

/-- Where the worker is. -/
inductive WorkerPhase where
  | running
  /-- in `CanLoopContinue`, at `m_operationMutex` -/
  | enter
  /-- in `CanLoopContinue`, under `m_operationMutex` -/
  | test
  /-- in the wait of `CanLoopContinue` -/
  | waiting
  /-- `CanLoopContinue` has answered false -/
  | leaving
  /-- in the handler, about to write `Status_Error` -/
  | caught
  | ended
  deriving Repr, DecidableEq

/-- Who can hold `m_operationMutex`, or wait. -/
inductive Party (τ : Type) where
  | worker
  | thread (t : τ)
  deriving Repr, DecidableEq

structure AsyncBaseThreads (τ : Type) where
  m_status : Ti_Worker_Status
  m_workingThread : Option WorkerPhase
  m_operationMutex : Option (Party τ)
  m_threadOpMutex : Option τ
  pc : τ → CallPc
  /-- the process was ended by `std::terminate` -/
  terminated : Bool
  starting : List τ
  alone : τ → Bool

namespace AsyncBaseThreads

variable {τ : Type} [DecidableEq τ]

/-- A constructed object, and no thread in a call. -/
def initial : AsyncBaseThreads τ where
  m_status := .Status_Stopped
  m_workingThread := none
  m_operationMutex := none
  m_threadOpMutex := none
  pc _ := .outside
  terminated := false
  starting := []
  alone _ := false

inductive Action (τ : Type) where
  | call (t : τ) (op : Operation)
  /-- the next step of a thread in a call -/
  | thread (t : τ)
  /-- the worker calls `CanLoopContinue` -/
  | canLoop
  /-- the next step of the worker in `CanLoopContinue`, or in the handler -/
  | worker
  | wake
  | returns
  | throws (e : Exn)

/-- Thread `t` goes on at `pc`. -/
def goto (s : AsyncBaseThreads τ) (t : τ) (pc : CallPc) : AsyncBaseThreads τ :=
  { s with pc := Function.update s.pc t pc }

/-- Thread `t` lets `m_operationMutex` go at the end of the operation, or of the first block of
`StopAsyncBase`. -/
def release (s : AsyncBaseThreads τ) (t : τ) (op : Operation) : AsyncBaseThreads τ :=
  { s with
    pc := Function.update s.pc t op.next
    m_operationMutex := none
    starting := if op = .Start then s.starting.filter (· ≠ t) else s.starting }

/-- The next step of a thread in a call; `none` while it waits. -/
def threadStep (s : AsyncBaseThreads τ) (t : τ) : Option (AsyncBaseThreads τ) :=
  match s.pc t with
  | .outside => none
  | .enter op =>
    match s.m_operationMutex with
    | some _ => none
    | none => some { s.goto t (.test op) with m_operationMutex := some (.thread t) }
  | .test op =>
    if op.acts s.m_status then some (s.goto t (.write op s.m_status)) else some (s.release t op)
  | .write op seen =>
    -- a start of a stopped object goes on to make the thread
    if op = .Start ∧ seen = .Status_Stopped then
      some { s.goto t .launch with m_status := op.status }
    else some { s.release t op with m_status := op.status }
  | .launch =>
    match s.m_threadOpMutex with
    | some _ => none
    | none => some { s.goto t .create with m_threadOpMutex := some t }
  | .create =>
    match s.m_workingThread with
    | some _ => some { s with terminated := true }
    | none => some { s.release t .Start with
        m_threadOpMutex := none, m_workingThread := some .running }
  | .reap =>
    match s.m_threadOpMutex with
    | some _ => none
    | none => some { s.goto t .join with m_threadOpMutex := some t }
  | .join =>
    match s.m_workingThread with
    | none => some (s.goto t .leave)
    | some .ended => some { s.goto t .leave with m_workingThread := none }
    | some _ => none
  | .leave => some { s.goto t .outside with m_threadOpMutex := none }

/-- The next step of the worker in `CanLoopContinue` or in the handler of the thread function. -/
def workerStep (s : AsyncBaseThreads τ) : Option (AsyncBaseThreads τ) :=
  match s.m_workingThread with
  | some .enter =>
    match s.m_operationMutex with
    | some _ => none
    | none => some { s with m_workingThread := some .test, m_operationMutex := some .worker }
  | some .test =>
    match AsyncBase.CanLoopContinue s.m_status with
    | none => some { s with m_workingThread := some .waiting, m_operationMutex := none }
    | some true => some { s with m_workingThread := some .running, m_operationMutex := none }
    | some false => some { s with m_workingThread := some .leaving, m_operationMutex := none }
  | some .caught => some { s with m_workingThread := some .ended, m_status := .Status_Error }
  | _ => none

/-- `t` calls an operation. -/
def callStep (s : AsyncBaseThreads τ) (t : τ) : Operation → AsyncBaseThreads τ
  | .Start => { s.goto t (.enter .Start) with starting := t :: s.starting, alone := fun _ => false }
  | .Stop =>
    { s.goto t (.enter .Stop) with alone := Function.update s.alone t s.starting.isEmpty }
  | op => s.goto t (.enter op)

def step (s : AsyncBaseThreads τ) (a : Action τ) : Option (AsyncBaseThreads τ) :=
  if s.terminated then none
  else
    match a with
    | .call t op => if s.pc t = .outside then some (s.callStep t op) else none
    | .thread t => s.threadStep t
    | .worker => s.workerStep
    | .canLoop =>
      if s.m_workingThread = some .running then some { s with m_workingThread := some .enter }
      else none
    | .wake =>
      if s.m_workingThread = some .waiting then some { s with m_workingThread := some .enter }
      else none
    | .returns =>
      if s.m_workingThread = some .running ∨ s.m_workingThread = some .leaving then
        some { s with m_workingThread := some .ended }
      else none
    | .throws e =>
      if s.m_workingThread = some .running ∨ s.m_workingThread = some .leaving then
        -- whether the handler of the thread function takes it
        if e.isExceptionWithString then some { s with m_workingThread := some .caught }
        else some { s with terminated := true }
      else none

/-! ## What a step can be -/

/-- The steps of a thread in a call. -/
inductive ThreadMoves (s : AsyncBaseThreads τ) (t : τ) : AsyncBaseThreads τ → Prop
  | enter (op : Operation) (hpc : s.pc t = .enter op) (hfree : s.m_operationMutex = none) :
    ThreadMoves s t { s.goto t (.test op) with m_operationMutex := some (.thread t) }
  | acts (op : Operation) (hpc : s.pc t = .test op) (hacts : op.acts s.m_status = true) :
    ThreadMoves s t (s.goto t (.write op s.m_status))
  | skips (op : Operation) (hpc : s.pc t = .test op) (hacts : op.acts s.m_status = false) :
    ThreadMoves s t (s.release t op)
  | starts (hpc : s.pc t = .write .Start .Status_Stopped) :
    ThreadMoves s t { s.goto t .launch with m_status := .Status_Started }
  | writes (op : Operation) (seen : Ti_Worker_Status) (hpc : s.pc t = .write op seen)
      (hstart : ¬ (op = .Start ∧ seen = .Status_Stopped)) :
    ThreadMoves s t { s.release t op with m_status := op.status }
  | launch (hpc : s.pc t = .launch) (hfree : s.m_threadOpMutex = none) :
    ThreadMoves s t { s.goto t .create with m_threadOpMutex := some t }
  | terminates (hpc : s.pc t = .create) (hw : s.m_workingThread ≠ none) :
    ThreadMoves s t { s with terminated := true }
  | create (hpc : s.pc t = .create) (hw : s.m_workingThread = none) :
    ThreadMoves s t { s.release t .Start with
      m_threadOpMutex := none, m_workingThread := some .running }
  | reap (hpc : s.pc t = .reap) (hfree : s.m_threadOpMutex = none) :
    ThreadMoves s t { s.goto t .join with m_threadOpMutex := some t }
  | absent (hpc : s.pc t = .join) (hw : s.m_workingThread = none) :
    ThreadMoves s t (s.goto t .leave)
  | joined (hpc : s.pc t = .join) (hw : s.m_workingThread = some .ended) :
    ThreadMoves s t { s.goto t .leave with m_workingThread := none }
  | leave (hpc : s.pc t = .leave) :
    ThreadMoves s t { s.goto t .outside with m_threadOpMutex := none }

theorem threadStep_moves {s s' : AsyncBaseThreads τ} {t : τ} (hs : s.threadStep t = some s') :
    ThreadMoves s t s' := by
  unfold threadStep at hs
  cases hpc : s.pc t with
  | outside => simp [hpc] at hs
  | enter op =>
    cases hm : s.m_operationMutex with
    | some p => simp [hpc, hm] at hs
    | none =>
      simp only [hpc, hm, Option.some.injEq] at hs
      exact hs ▸ .enter op hpc hm
  | test op =>
    cases hacts : op.acts s.m_status with
    | true =>
      simp only [hpc, hacts, if_true, Option.some.injEq] at hs
      exact hs ▸ .acts op hpc hacts
    | false =>
      simp only [hpc, hacts, Bool.false_eq_true, if_false, Option.some.injEq] at hs
      exact hs ▸ .skips op hpc hacts
  | write op seen =>
    by_cases hstart : op = .Start ∧ seen = .Status_Stopped
    · simp only [hpc, if_pos hstart, Option.some.injEq] at hs
      obtain ⟨rfl, rfl⟩ := hstart
      exact hs ▸ .starts hpc
    · simp only [hpc, if_neg hstart, Option.some.injEq] at hs
      exact hs ▸ .writes op seen hpc hstart
  | launch =>
    cases hm : s.m_threadOpMutex with
    | some u => simp [hpc, hm] at hs
    | none =>
      simp only [hpc, hm, Option.some.injEq] at hs
      exact hs ▸ .launch hpc hm
  | create =>
    cases hw : s.m_workingThread with
    | some w =>
      simp only [hpc, hw, Option.some.injEq] at hs
      rw [← hw] at hs
      exact hs ▸ .terminates hpc (by simp [hw])
    | none =>
      simp only [hpc, hw, Option.some.injEq] at hs
      exact hs ▸ .create hpc hw
  | reap =>
    cases hm : s.m_threadOpMutex with
    | some u => simp [hpc, hm] at hs
    | none =>
      simp only [hpc, hm, Option.some.injEq] at hs
      exact hs ▸ .reap hpc hm
  | join =>
    cases hw : s.m_workingThread with
    | none =>
      simp only [hpc, hw, Option.some.injEq] at hs
      exact hs ▸ .absent hpc hw
    | some w =>
      cases w with
      | ended =>
        simp only [hpc, hw, Option.some.injEq] at hs
        exact hs ▸ .joined hpc hw
      | _ => simp [hpc, hw] at hs
  | leave =>
    simp only [hpc, Option.some.injEq] at hs
    exact hs ▸ .leave hpc

/-- The steps of the system. -/
inductive Moves (s : AsyncBaseThreads τ) : Action τ → AsyncBaseThreads τ → Prop
  | call (t : τ) (op : Operation) (hpc : s.pc t = .outside) : Moves s (.call t op) (s.callStep t op)
  | thread (t : τ) {s' : AsyncBaseThreads τ} (hmove : ThreadMoves s t s') : Moves s (.thread t) s'
  /-- the worker goes on, outside `m_operationMutex` before and after -/
  | roams (a : Action τ) (w w' : WorkerPhase) (hw : s.m_workingThread = some w) (hfrom : w ≠ .test)
      (hto : w' ≠ .test) (hlives : w ≠ .ended) :
    Moves s a { s with m_workingThread := some w' }
  | locks (hw : s.m_workingThread = some .enter) (hfree : s.m_operationMutex = none) :
    Moves s .worker { s with m_workingThread := some .test, m_operationMutex := some .worker }
  | unlocks (w : WorkerPhase) (hw : s.m_workingThread = some .test) (hto : w ≠ .test) :
    Moves s .worker { s with m_workingThread := some w, m_operationMutex := none }
  | fails (hw : s.m_workingThread = some .caught) :
    Moves s .worker { s with m_workingThread := some .ended, m_status := .Status_Error }
  | terminates (a : Action τ) (hw : s.m_workingThread ≠ none) :
    Moves s a { s with terminated := true }

theorem workerStep_moves {s s' : AsyncBaseThreads τ} (hs : s.workerStep = some s') :
    Moves s .worker s' := by
  unfold workerStep at hs
  cases hw : s.m_workingThread with
  | none => simp [hw] at hs
  | some w =>
    cases w with
    | enter =>
      cases hm : s.m_operationMutex with
      | some p => simp [hw, hm] at hs
      | none =>
        simp only [hw, hm, Option.some.injEq] at hs
        exact hs ▸ .locks hw hm
    | test =>
      simp only [hw] at hs
      split at hs
      · exact Option.some.inj hs ▸ .unlocks .waiting hw (by decide)
      · exact Option.some.inj hs ▸ .unlocks .running hw (by decide)
      · exact Option.some.inj hs ▸ .unlocks .leaving hw (by decide)
    | caught =>
      simp only [hw, Option.some.injEq] at hs
      exact hs ▸ .fails hw
    | _ => simp [hw] at hs

theorem step_moves {s s' : AsyncBaseThreads τ} {a : Action τ} (hs : step s a = some s') :
    Moves s a s' := by
  unfold step at hs
  rw [Option.ite_none_left_eq_some] at hs
  obtain ⟨-, hs⟩ := hs
  cases a with
  | call t op =>
    simp only [Option.ite_none_right_eq_some, Option.some.injEq] at hs
    obtain ⟨hpc, rfl⟩ := hs
    exact .call t op hpc
  | thread t => exact .thread t (threadStep_moves hs)
  | worker => exact workerStep_moves hs
  | canLoop =>
    simp only [Option.ite_none_right_eq_some, Option.some.injEq] at hs
    obtain ⟨hw, rfl⟩ := hs
    exact .roams _ _ _ hw (by decide) (by decide) (by decide)
  | wake =>
    simp only [Option.ite_none_right_eq_some, Option.some.injEq] at hs
    obtain ⟨hw, rfl⟩ := hs
    exact .roams _ _ _ hw (by decide) (by decide) (by decide)
  | returns =>
    simp only [Option.ite_none_right_eq_some, Option.some.injEq] at hs
    rcases hs with ⟨hw | hw, rfl⟩
    · exact .roams _ _ _ hw (by decide) (by decide) (by decide)
    · exact .roams _ _ _ hw (by decide) (by decide) (by decide)
  | throws e =>
    simp only [Option.ite_none_right_eq_some] at hs
    obtain ⟨hw, hs⟩ := hs
    split at hs
    · obtain rfl := Option.some.inj hs
      rcases hw with hw | hw
      · exact .roams _ _ _ hw (by decide) (by decide) (by decide)
      · exact .roams _ _ _ hw (by decide) (by decide) (by decide)
    · refine Option.some.inj hs ▸ .terminates _ ?_
      rcases hw with hw | hw
      · simp [hw]
      · simp [hw]

/-! ## The mutexes -/

/-- Who is in a phase under `m_operationMutex`. -/
def UnderOperation (s : AsyncBaseThreads τ) : Party τ → Prop
  | .worker => s.m_workingThread = some .test
  | .thread t => (s.pc t).underOperation = true

/-- Each mutex is held by whom it names. -/
structure Locked (s : AsyncBaseThreads τ) : Prop where
  operation : Held s.m_operationMutex s.UnderOperation
  threadOp : Held s.m_threadOpMutex fun t => (s.pc t).underThreadOp = true

omit [DecidableEq τ] in
theorem Locked.initial : Locked (initial : AsyncBaseThreads τ) where
  operation p := by
    cases p <;> simp [AsyncBaseThreads.initial, UnderOperation, CallPc.underOperation]
  threadOp t := by simp [AsyncBaseThreads.initial, CallPc.underThreadOp]

variable {s s' : AsyncBaseThreads τ} {t : τ} {pc : CallPc}

section Moved

/- A step of thread `t` to `pc`; the worker is under the mutex as before. -/
variable (hpc : s'.pc = Function.update s.pc t pc)
  (hworker : s'.m_workingThread = some .test ↔ s.m_workingThread = some .test)

include hpc

theorem pc_self : s'.pc t = pc := by rw [hpc, Function.update_self]

theorem pc_of_ne {u : τ} (hu : u ≠ t) : s'.pc u = s.pc u := by
  rw [hpc, Function.update_of_ne hu]

include hworker

theorem under_of_ne {p : Party τ} (hp : p ≠ .thread t) :
    s'.UnderOperation p ↔ s.UnderOperation p := by
  cases p with
  | worker => exact hworker
  | thread u =>
    have hu : u ≠ t := fun heq => hp (heq ▸ rfl)
    rw [UnderOperation, UnderOperation, pc_of_ne hpc hu]

theorem operation_keep (h : Held s.m_operationMutex s.UnderOperation)
    (hsame : pc.underOperation = (s.pc t).underOperation) :
    Held s.m_operationMutex s'.UnderOperation := by
  refine h.keep fun p => ?_
  by_cases hp : p = .thread t
  · subst hp
    rw [UnderOperation, UnderOperation, pc_self hpc, hsame]
  · exact under_of_ne hpc hworker hp

theorem operation_acquire (h : Held s.m_operationMutex s.UnderOperation)
    (hfree : s.m_operationMutex = none) (hunder : pc.underOperation = true) :
    Held (some (.thread t)) s'.UnderOperation := by
  rw [hfree] at h
  refine h.acquire ?_ fun p hp => (under_of_ne hpc hworker hp).mp
  rwa [UnderOperation, pc_self hpc]

theorem operation_release (h : Held s.m_operationMutex s.UnderOperation)
    (hunder : (s.pc t).underOperation = true) (hfree : pc.underOperation = false) :
    Held none s'.UnderOperation := by
  refine h.release (p := .thread t) hunder ?_ fun p hp => (under_of_ne hpc hworker hp).mp
  rw [UnderOperation, pc_self hpc, hfree]
  exact Bool.false_ne_true

omit hworker

theorem threadOp_keep (h : Held s.m_threadOpMutex fun t => (s.pc t).underThreadOp = true)
    (hsame : pc.underThreadOp = (s.pc t).underThreadOp) :
    Held s.m_threadOpMutex fun t => (s'.pc t).underThreadOp = true := by
  refine h.keep fun u => ?_
  by_cases hu : u = t
  · subst hu
    rw [pc_self hpc, hsame]
  · rw [pc_of_ne hpc hu]

theorem threadOp_acquire (h : Held s.m_threadOpMutex fun t => (s.pc t).underThreadOp = true)
    (hfree : s.m_threadOpMutex = none) (hunder : pc.underThreadOp = true) :
    Held (some t) fun t => (s'.pc t).underThreadOp = true := by
  rw [hfree] at h
  refine h.acquire ?_ fun u hu => ?_
  · rwa [pc_self hpc]
  · rw [pc_of_ne hpc hu]
    exact id

theorem threadOp_release (h : Held s.m_threadOpMutex fun t => (s.pc t).underThreadOp = true)
    (hunder : (s.pc t).underThreadOp = true) (hfree : pc.underThreadOp = false) :
    Held none fun t => (s'.pc t).underThreadOp = true := by
  refine h.release hunder ?_ fun u hu => ?_
  · rw [pc_self hpc, hfree]
    exact Bool.false_ne_true
  · rw [pc_of_ne hpc hu]
    exact id

end Moved

@[simp] theorem goto_pc_self (s : AsyncBaseThreads τ) (t : τ) (pc : CallPc) :
    (s.goto t pc).pc t = pc :=
  pc_self rfl

@[simp] theorem release_pc_self (s : AsyncBaseThreads τ) (t : τ) (op : Operation) :
    (s.release t op).pc t = op.next :=
  pc_self rfl

theorem next_underOperation (op : Operation) : op.next.underOperation = false := by
  cases op <;> rfl

theorem next_underThreadOp (op : Operation) : op.next.underThreadOp = false := by
  cases op <;> rfl

theorem Locked.thread (h : Locked s) (hmove : ThreadMoves s t s') : Locked s' := by
  obtain ⟨hop, hth⟩ := h
  cases hmove with
  | enter op hpc hfree =>
    constructor
    · exact operation_acquire (s := s) (t := t) rfl .rfl hop hfree rfl
    · exact threadOp_keep (s := s) (t := t) rfl hth (by rw [hpc]; rfl)
  | acts op hpc _ =>
    constructor
    · exact operation_keep (s := s) (t := t) rfl .rfl hop (by rw [hpc]; rfl)
    · exact threadOp_keep (s := s) (t := t) rfl hth (by rw [hpc]; rfl)
  | skips op hpc _ =>
    constructor
    · exact operation_release (s := s) (t := t) rfl .rfl hop (by rw [hpc]; rfl)
        (next_underOperation op)
    · exact threadOp_keep (s := s) (t := t) rfl hth (by rw [hpc, next_underThreadOp]; rfl)
  | starts hpc =>
    constructor
    · exact operation_keep (s := s) (t := t) rfl .rfl hop (by rw [hpc]; rfl)
    · exact threadOp_keep (s := s) (t := t) rfl hth (by rw [hpc]; rfl)
  | writes op seen hpc _ =>
    constructor
    · exact operation_release (s := s) (t := t) rfl .rfl hop (by rw [hpc]; rfl)
        (next_underOperation op)
    · exact threadOp_keep (s := s) (t := t) rfl hth (by rw [hpc, next_underThreadOp]; rfl)
  | launch hpc hfree =>
    constructor
    · exact operation_keep (s := s) (t := t) rfl .rfl hop (by rw [hpc]; rfl)
    · exact threadOp_acquire (s := s) (t := t) rfl hth hfree rfl
  | terminates => exact ⟨hop, hth⟩
  | create hpc hw =>
    constructor
    · exact operation_release (s := s) (t := t) rfl (by simp [hw]) hop (by rw [hpc]; rfl) rfl
    · exact threadOp_release (s := s) (t := t) rfl hth (by rw [hpc]; rfl) rfl
  | reap hpc hfree =>
    constructor
    · exact operation_keep (s := s) (t := t) rfl .rfl hop (by rw [hpc]; rfl)
    · exact threadOp_acquire (s := s) (t := t) rfl hth hfree rfl
  | absent hpc hw =>
    constructor
    · exact operation_keep (s := s) (t := t) rfl .rfl hop (by rw [hpc]; rfl)
    · exact threadOp_keep (s := s) (t := t) rfl hth (by rw [hpc]; rfl)
  | joined hpc hw =>
    constructor
    · exact operation_keep (s := s) (t := t) rfl (by simp [hw]) hop (by rw [hpc]; rfl)
    · exact threadOp_keep (s := s) (t := t) rfl hth (by rw [hpc]; rfl)
  | leave hpc =>
    constructor
    · exact operation_keep (s := s) (t := t) rfl .rfl hop (by rw [hpc]; rfl)
    · exact threadOp_release (s := s) (t := t) rfl hth (by rw [hpc]; rfl) rfl

@[simp] theorem callStep_pc (s : AsyncBaseThreads τ) (t : τ) (op : Operation) :
    (s.callStep t op).pc = Function.update s.pc t (.enter op) := by
  cases op <;> rfl

@[simp] theorem callStep_m_workingThread (s : AsyncBaseThreads τ) (t : τ) (op : Operation) :
    (s.callStep t op).m_workingThread = s.m_workingThread := by
  cases op <;> rfl

@[simp] theorem callStep_m_status (s : AsyncBaseThreads τ) (t : τ) (op : Operation) :
    (s.callStep t op).m_status = s.m_status := by
  cases op <;> rfl

@[simp] theorem callStep_m_operationMutex (s : AsyncBaseThreads τ) (t : τ) (op : Operation) :
    (s.callStep t op).m_operationMutex = s.m_operationMutex := by
  cases op <;> rfl

@[simp] theorem callStep_m_threadOpMutex (s : AsyncBaseThreads τ) (t : τ) (op : Operation) :
    (s.callStep t op).m_threadOpMutex = s.m_threadOpMutex := by
  cases op <;> rfl

/-- **The mutexes** keep to the phases. -/
theorem Locked.step {a : Action τ} (h : Locked s) (hs : step s a = some s') : Locked s' := by
  obtain ⟨hop, hth⟩ := h
  cases step_moves hs with
  | call t op hpc =>
    constructor
    · rw [callStep_m_operationMutex]
      exact operation_keep (callStep_pc s t op) (by simp) hop (by rw [hpc]; rfl)
    · rw [callStep_m_threadOpMutex]
      exact threadOp_keep (callStep_pc s t op) hth (by rw [hpc]; rfl)
  | thread t hmove => exact Locked.thread ⟨hop, hth⟩ hmove
  | roams _ w w' hw hfrom hto =>
    refine ⟨hop.keep fun p => ?_, hth⟩
    cases p with
    | worker => simp [UnderOperation, hw, hfrom, hto]
    | thread u => rfl
  | locks hw hfree =>
    rw [hfree] at hop
    refine ⟨hop.acquire rfl fun p hp => ?_, hth⟩
    cases p with
    | worker => exact absurd rfl hp
    | thread u => exact id
  | unlocks w hw hto =>
    refine ⟨hop.release (p := .worker) hw ?_ fun p hp => ?_, hth⟩
    · simp [UnderOperation, hto]
    · cases p with
      | worker => exact absurd rfl hp
      | thread u => exact id
  | fails hw =>
    refine ⟨hop.keep fun p => ?_, hth⟩
    cases p with
    | worker => simp [UnderOperation, hw]
    | thread u => rfl
  | terminates => exact ⟨hop, hth⟩

/-- A start, the worker in `CanLoopContinue` twice, and a stop in between, about to return. -/
def startedAndStopped : List (Action Bool) :=
  .call false .Start :: .replicate 5 (.thread false) ++ [.canLoop, .worker, .call true .Stop, .worker]
    ++ .replicate 4 (.thread true) ++ [.canLoop, .worker, .worker, .returns, .thread true]

end AsyncBaseThreads

end TiraRdp
