import TiraRdp.Utility.AsyncBaseThreads

/-!
# `TimeBasedWorker` under threads

`Workloop` and `UnBlockWorkingThread` (`common/utility/private/common/timebased_worker.cpp:5-31`)
with `wait_timer` (`wait_timer.cpp:4-14`), over the threads of `AsyncBase`: any number of threads
(`τ`) in calls of `Start` and `Stop`, and the worker.

* `base` is the state of `AsyncBase`; while its worker is `running`, `loop` says where `Workloop`
  is.
* `StopAsyncBase` writes `m_status`, cancels the timer and notifies `m_loopNotify` under
  `m_operationMutex`: `stopping` says how far it has come.
* `_mutex_` is only held around a notification, and around the test for a timeout; each of these is
  a step. A wait can time out at any moment, also when it has been notified, and can wake up without
  either.
* A `Start` without callbacks throws before it does anything, so it is no action here. The
  destructor is a `Stop`.

`lateCallback` records that a callback was started while `m_status` was `Status_Stopped`,
`leftStarted` that the worker ended while it was `Status_Started` and no callback had asked for
that.

Results: the runs in which neither happens (`orderly_never_late`), and that a step out of their time
leads to one in which it does (`wrong_of_not_orderly`).
-/

namespace TiraRdp

open Lib Lib.Lts

/-- Where `Workloop` is. -/
inductive LoopPc where
  /-- at `CanLoopContinue`, or in it -/
  | check
  /-- at `_wait_timer.wait` -/
  | wait
  | blocked (notified : Bool)
  /-- `wait` has answered true -/
  | timedOut
  /-- `wait` has answered false -/
  | woken
  /-- in `_callback`, with so many slots to call -/
  | between (left : Nat)
  /-- in a slot -/
  | inside (left : Nat)
  /-- in the handler of `timebased_worker_cancel` -/
  | asked
  deriving Repr, DecidableEq

namespace LoopPc

/-- `_cv_.notify_all`. -/
def notified : LoopPc → LoopPc
  | .blocked _ => .blocked true
  | pc => pc

/-- A callback is to be started before the next test of `CanLoopContinue`. -/
def due : LoopPc → Bool
  | .timedOut => true
  | .between left => decide (0 < left)
  | .inside left => decide (0 < left)
  | _ => false

end LoopPc

/-- `StopAsyncBase` behind its write. -/
inductive UnblockPc where
  | cancel
  | notify
  deriving Repr, DecidableEq

structure TimeBasedWorker (τ : Type) where
  base : AsyncBaseThreads τ
  loop : LoopPc
  stopping : Option UnblockPc
  lateCallback : Bool
  leftStarted : Bool

namespace TimeBasedWorker

variable {τ : Type} [DecidableEq τ]

def initial : TimeBasedWorker τ := ⟨.initial, .check, none, false, false⟩

inductive Action (τ : Type) where
  | Start (t : τ)
  | Stop (t : τ)
  /-- the next step of a thread in a call -/
  | thread (t : τ)
  /-- the worker calls `CanLoopContinue` -/
  | canLoop
  /-- the next step of the worker in `CanLoopContinue`, or in the handler of the thread -/
  | worker
  /-- the worker wakes up in `CanLoopContinue` -/
  | wake
  | wait
  | timesOut
  /-- the wait ends otherwise, notified or not -/
  | wakes
  /-- `_callback` copies its slots -/
  | invoke (slots : Nat)
  | callback
  | slotReturns
  | loops
  /-- a slot throws `timebased_worker_cancel` -/
  | cancels
  | throws (e : Exn)
  | returns
  deriving DecidableEq

/-- `AsyncBase` does a step. -/
def onBase (s : TimeBasedWorker τ) (a : AsyncBaseThreads.Action τ) : Option (TimeBasedWorker τ) :=
  (s.base.step a).map fun base => { s with base := base }

/-- The next step of a thread in a call. -/
def threadStep (s : TimeBasedWorker τ) (t : τ) : Option (TimeBasedWorker τ) :=
  match s.base.pc t with
  | .write .Stop _ =>
    match s.stopping with
    | none =>
      some { s with base := { s.base with m_status := .Status_Stopped }, stopping := some .cancel }
    | some .cancel => some { s with loop := s.loop.notified, stopping := some .notify }
    | some .notify => some { s with base := s.base.release t .Stop, stopping := none }
  | .create => (s.onBase (.thread t)).map fun s => { s with loop := .check }
  | _ => s.onBase (.thread t)

/-- `CanLoopContinue`: an answer of true leads to the wait. -/
def workerStep (s : TimeBasedWorker τ) : Option (TimeBasedWorker τ) :=
  (s.onBase .worker).map fun s =>
    if s.base.m_workingThread = some .running then { s with loop := .wait } else s

/-- A step of `Workloop` itself, from `loop`. -/
def loopStep (s : TimeBasedWorker τ) : Action τ → LoopPc → Option (TimeBasedWorker τ)
  | .wait, .wait => some { s with loop := .blocked false }
  | .timesOut, .blocked _ => some { s with loop := .timedOut }
  | .wakes, .blocked _ => some { s with loop := .woken }
  | .invoke slots, .timedOut => some { s with loop := .between slots }
  | .callback, .between (left + 1) => some { s with
      loop := .inside left
      lateCallback := s.lateCallback || s.base.m_status == .Status_Stopped }
  | .slotReturns, .inside left => some { s with loop := .between left }
  | .loops, .between 0 => some { s with loop := .check }
  | .cancels, .inside _ => some { s with loop := .asked }
  | .throws e, .inside _ => s.onBase (.throws e)
  | _, _ => none

/-- The worker's function ends: behind a `CanLoopContinue` that answered false, or out of the
loop. -/
def returnStep (s : TimeBasedWorker τ) : Option (TimeBasedWorker τ) :=
  let asked := decide (s.base.m_workingThread = some .running) && s.loop == .asked
  if s.base.m_workingThread = some .leaving ∨ s.loop = .woken ∨ s.loop = .asked then
    (s.onBase .returns).map fun t =>
      { t with leftStarted := s.leftStarted || (s.base.m_status == .Status_Started && !asked) }
  else none

def step (s : TimeBasedWorker τ) (a : Action τ) : Option (TimeBasedWorker τ) :=
  if s.base.terminated then none
  else
    match a with
    | .Start t => s.onBase (.call t .Start)
    | .Stop t => s.onBase (.call t .Stop)
    | .thread t => s.threadStep t
    | .canLoop => if s.loop = .check then s.onBase .canLoop else none
    | .worker => s.workerStep
    | .wake => s.onBase .wake
    | .returns => s.returnStep
    | a => if s.base.m_workingThread = some .running then s.loopStep a s.loop else none

/-- No callback was started behind a stop, and the worker has not ended by itself. -/
def Right (s : TimeBasedWorker τ) : Prop := s.lateCallback = false ∧ s.leftStarted = false

/-- A timeout has come, and a callback of it has not been started. -/
def CallbackDue (s : TimeBasedWorker τ) : Prop :=
  s.base.m_workingThread = some .running ∧ s.loop.due = true

/-- The worker is on its way out, and no callback asked for that. -/
def Leaving (s : TimeBasedWorker τ) : Prop :=
  s.base.m_workingThread = some .leaving ∨ s.base.m_workingThread = some .running ∧ s.loop = .woken

/-- The timing that a thread's step needs: it writes no `Status_Stopped` while a callback is due,
and no `Status_Started` while the worker is on its way out. -/
def ThreadOrderly (s : TimeBasedWorker τ) : CallPc → Prop
  | .write .Stop _ => s.stopping = none → ¬ s.CallbackDue
  | .write op _ => op.status = .Status_Started → ¬ s.Leaving
  | _ => True

/-- The timing that a step needs: also, no timeout comes while stopped, and no other wake-up while
started. -/
def Orderly (s : TimeBasedWorker τ) : Action τ → Prop
  | .thread t => s.ThreadOrderly (s.base.pc t)
  | .timesOut => s.base.m_status ≠ .Status_Stopped
  | .wakes => s.base.m_status ≠ .Status_Started
  | _ => True

/-- The invariant. -/
structure Quiet (s : TimeBasedWorker τ) : Prop where
  right : s.Right
  due : s.CallbackDue → s.base.m_status ≠ .Status_Stopped
  leaving : s.Leaving → s.base.m_status ≠ .Status_Started

/-- A notification makes no callback due, and leads no worker out. -/
theorem notified_due (pc : LoopPc) : pc.notified.due = pc.due := by
  cases pc with
  | blocked _ => rfl
  | _ => rfl

theorem eq_woken_of_notified {pc : LoopPc} (h : pc.notified = .woken) : pc = .woken := by
  cases pc with
  | blocked _ => exact nomatch h
  | _ => exact h

omit [DecidableEq τ] in
theorem quiet_initial : Quiet (initial : TimeBasedWorker τ) := by
  refine ⟨⟨rfl, rfl⟩, (fun h => nomatch h.1), ?_⟩
  rintro (h | ⟨h, -⟩)
  · exact nomatch h
  · exact nomatch h

variable {s t : TimeBasedWorker τ} {base : AsyncBaseThreads τ}

/-! ## Steps of `AsyncBase` -/

omit [DecidableEq τ] in
/-- A step that writes no status and brings the worker neither to a callback nor on its way out. -/
theorem Quiet.keep (h : s.Quiet) (hright : t.Right) (hdue : t.CallbackDue → s.CallbackDue)
    (hleaving : t.Leaving → s.Leaving) (hstatus : t.base.m_status = s.base.m_status) : t.Quiet := by
  refine ⟨hright, fun hd => ?_, fun hl => ?_⟩
  · rw [hstatus]
    exact h.due (hdue hd)
  · rw [hstatus]
    exact h.leaving (hleaving hl)

omit [DecidableEq τ] in
/-- The worker is where it was. -/
theorem Quiet.keep_base (h : s.Quiet) (hstatus : base.m_status = s.base.m_status)
    (hworker : base.m_workingThread = s.base.m_workingThread) : Quiet { s with base := base } := by
  refine h.keep h.right ?_ ?_ hstatus
  · rintro ⟨hrunning, hdue⟩
    exact ⟨hworker ▸ hrunning, hdue⟩
  · intro hleaving
    unfold Leaving at hleaving ⊢
    rwa [hworker] at hleaving

omit [DecidableEq τ] in
/-- The worker is neither in the loop nor behind it. -/
theorem Quiet.outside (h : s.Quiet) (hrunning : base.m_workingThread ≠ some .running)
    (hleaving : base.m_workingThread ≠ some .leaving) : Quiet { s with base := base } :=
  ⟨h.right, fun hd => absurd hd.1 hrunning, fun hl => hl.elim (absurd · hleaving) fun hl => absurd hl.1 hrunning⟩

/-- `AsyncBase` does a step in a process that has not ended. -/
theorem onBase_eq {a : AsyncBaseThreads.Action τ} (h : s.onBase a = some t) :
    ∃ base, s.base.step a = some base ∧ t = { s with base := base } := by
  obtain ⟨base, hbase, rfl⟩ := Option.map_eq_some_iff.mp h
  exact ⟨base, hbase, rfl⟩

omit [DecidableEq τ] in
/-- `CanLoopContinue` answers false where the object is not started. -/
theorem workerStep_leaving {s base : AsyncBaseThreads τ} (hstep : s.workerStep = some base)
    (hleaving : base.m_workingThread = some .leaving) : base.m_status ≠ .Status_Started := by
  unfold AsyncBaseThreads.workerStep at hstep
  split at hstep
  · split at hstep
    · exact nomatch hstep
    · obtain rfl := Option.some.inj hstep
      exact nomatch hleaving
  · split at hstep
    · obtain rfl := Option.some.inj hstep
      exact nomatch hleaving
    · obtain rfl := Option.some.inj hstep
      exact nomatch hleaving
    · rename_i hfalse
      obtain rfl := Option.some.inj hstep
      intro hstarted
      rw [show s.m_status = .Status_Started from hstarted] at hfalse
      exact nomatch hfalse
  · obtain rfl := Option.some.inj hstep
    exact Ti_Worker_Status.noConfusion
  · exact nomatch hstep

/-- A call begins without a write. -/
theorem Quiet.call {u : τ} {op : Operation} (h : s.Quiet) (hstep : s.onBase (.call u op) = some t) :
    t.Quiet := by
  obtain ⟨base, hbase, rfl⟩ := onBase_eq hstep
  obtain ⟨-, hbase⟩ := Option.ite_none_left_eq_some.mp hbase
  obtain ⟨-, hbase⟩ := Option.ite_none_right_eq_some.mp hbase
  obtain rfl := Option.some.inj hbase
  refine h.keep_base ?_ ?_
  · cases op <;> rfl
  · cases op <;> rfl

/-- The worker comes to `m_operationMutex` in `CanLoopContinue`, from the loop or from the wait
there. -/
theorem Quiet.enters {a : AsyncBaseThreads.Action τ} (h : s.Quiet) (phase : WorkerPhase)
    (ha : s.base.step a = if s.base.terminated then none
      else if s.base.m_workingThread = some phase then
        some { s.base with m_workingThread := some .enter }
      else none) (hstep : s.onBase a = some t) : t.Quiet := by
  obtain ⟨base, hbase, rfl⟩ := onBase_eq hstep
  rw [ha] at hbase
  obtain ⟨-, hbase⟩ := Option.ite_none_left_eq_some.mp hbase
  obtain ⟨-, hbase⟩ := Option.ite_none_right_eq_some.mp hbase
  obtain rfl := Option.some.inj hbase
  exact h.outside (fun heq => nomatch heq) (fun heq => nomatch heq)

theorem Quiet.throws {e : Exn} (h : s.Quiet) (hstep : s.onBase (.throws e) = some t) : t.Quiet := by
  obtain ⟨base, hbase, rfl⟩ := onBase_eq hstep
  obtain ⟨-, hbase⟩ := Option.ite_none_left_eq_some.mp hbase
  obtain ⟨-, hbase⟩ := Option.ite_none_right_eq_some.mp hbase
  split at hbase
  · obtain rfl := Option.some.inj hbase
    exact h.outside (fun heq => nomatch heq) (fun heq => nomatch heq)
  · obtain rfl := Option.some.inj hbase
    exact h.keep_base rfl rfl

/-- **`CanLoopContinue`**: where it answers false the object is not started. -/
theorem Quiet.worker (h : s.Quiet) (hstep : s.workerStep = some t) : t.Quiet := by
  obtain ⟨s', hs', rfl⟩ := Option.map_eq_some_iff.mp hstep
  obtain ⟨base, hbase, rfl⟩ := onBase_eq hs'
  obtain ⟨-, hbase⟩ := Option.ite_none_left_eq_some.mp hbase
  split_ifs with hrunning
  · -- the answer was true
    refine ⟨h.right, fun hd => absurd hd.2 Bool.false_ne_true, ?_⟩
    rintro (hl | ⟨-, hl⟩)
    · exact absurd (Option.some.inj (hrunning.symm.trans hl)) (by decide)
    · exact nomatch hl
  · refine ⟨h.right, fun hd => absurd hd.1 hrunning, ?_⟩
    rintro (hl | ⟨hl, -⟩)
    · exact workerStep_leaving hbase hl
    · exact absurd hl hrunning

/-- A thread in a call writes nothing outside of its write, and makes a worker only in `create`. -/
theorem Quiet.callStep {u : τ} (h : s.Quiet) (hstep : s.onBase (.thread u) = some t)
    (hwrite : ∀ op seen, s.base.pc u ≠ .write op seen) (hcreate : s.base.pc u ≠ .create) :
    t.Quiet := by
  obtain ⟨base, hbase, rfl⟩ := onBase_eq hstep
  obtain ⟨-, hbase⟩ := Option.ite_none_left_eq_some.mp hbase
  cases AsyncBaseThreads.threadStep_moves hbase with
  | enter op hpc hfree => exact h.keep_base rfl rfl
  | acts op hpc hacts => exact h.keep_base rfl rfl
  | skips op hpc hacts => exact h.keep_base rfl rfl
  | starts hpc => exact absurd hpc (hwrite _ _)
  | writes op seen hpc hstart => exact absurd hpc (hwrite _ _)
  | launch hpc hfree => exact h.keep_base rfl rfl
  | terminates hpc hw => exact absurd hpc hcreate
  | create hpc hw => exact absurd hpc hcreate
  | reap hpc hfree => exact h.keep_base rfl rfl
  | absent hpc hw => exact h.keep_base rfl rfl
  | joined hpc hw => exact h.outside (fun heq => nomatch heq) (fun heq => nomatch heq)
  | leave hpc => exact h.keep_base rfl rfl

/-- A new worker begins at `CanLoopContinue`. -/
theorem Quiet.create {u : τ} {s' : TimeBasedWorker τ} (h : s.Quiet) (hpc : s.base.pc u = .create)
    (hstep : s.onBase (.thread u) = some s') : Quiet { s' with loop := .check } := by
  obtain ⟨base, hbase, rfl⟩ := onBase_eq hstep
  obtain ⟨-, hbase⟩ := Option.ite_none_left_eq_some.mp hbase
  have hnotDue (hd : CallbackDue { s with base := base, loop := .check }) : False :=
    absurd hd.2 Bool.false_ne_true
  refine ⟨h.right, fun hd => (hnotDue hd).elim, ?_⟩
  rintro (hl | ⟨-, hl⟩)
  · have hthread : s.base.threadStep u = some base := hbase
    unfold AsyncBaseThreads.threadStep at hthread
    rw [hpc] at hthread
    dsimp only at hthread
    split at hthread
    · obtain rfl := Option.some.inj hthread
      exact h.leaving (Or.inl hl)
    · obtain rfl := Option.some.inj hthread
      exact nomatch hl
  · exact nomatch hl

/-- What a write changes of what the worker looks at. -/
theorem write_eq {u : τ} {op : Operation} {seen : Ti_Worker_Status}
    (hpc : s.base.pc u = .write op seen) (hstep : s.onBase (.thread u) = some t) :
    ∃ base, t = { s with base := base } ∧ base.m_status = op.status ∧
      base.m_workingThread = s.base.m_workingThread ∧ base.terminated = s.base.terminated := by
  obtain ⟨base, hbase, rfl⟩ := onBase_eq hstep
  obtain ⟨-, hbase⟩ := Option.ite_none_left_eq_some.mp hbase
  have hthread : s.base.threadStep u = some base := hbase
  unfold AsyncBaseThreads.threadStep at hthread
  rw [hpc] at hthread
  dsimp only at hthread
  split_ifs at hthread
  · obtain rfl := Option.some.inj hthread
    exact ⟨_, rfl, rfl, rfl, rfl⟩
  · obtain rfl := Option.some.inj hthread
    exact ⟨_, rfl, rfl, rfl, rfl⟩

/-- **A write** of another status than `Status_Stopped`; of `Status_Started`, while the worker is
not on its way out. -/
theorem Quiet.write {u : τ} {op : Operation} {seen : Ti_Worker_Status} (h : s.Quiet)
    (hpc : s.base.pc u = .write op seen) (hop : op ≠ .Stop)
    (hleaving : op.status = .Status_Started → ¬ s.Leaving) (hstep : s.onBase (.thread u) = some t) :
    t.Quiet := by
  obtain ⟨base, rfl, hstatus, hworker, -⟩ := write_eq hpc hstep
  refine ⟨h.right, fun _ => ?_, fun hl hstarted => ?_⟩
  · rw [hstatus]
    cases op with
    | Stop => exact absurd rfl hop
    | _ => exact Ti_Worker_Status.noConfusion
  · have hwas : s.Leaving := by
      unfold Leaving at hl ⊢
      rwa [hworker] at hl
    exact hleaving (hstatus.symm.trans hstarted) hwas

/-! ## Steps of `Workloop` and of the threads -/

/-- **`StopAsyncBase`** under the mutex: its write finds no callback due, and cancelling the timer
starts none. -/
theorem Quiet.stop {u : τ} (h : s.Quiet) (hdue : s.stopping = none → ¬ s.CallbackDue)
    (hstep : (match s.stopping with
      | none => some { s with base := { s.base with m_status := .Status_Stopped }, stopping := some .cancel }
      | some .cancel => some { s with loop := s.loop.notified, stopping := some .notify }
      | some .notify =>
        some { s with base := s.base.release u .Stop, stopping := none }) = some t) : t.Quiet := by
  cases hstopping : s.stopping with
  | none =>
    rw [hstopping] at hstep
    obtain rfl := Option.some.inj hstep
    exact ⟨h.right, fun hd => absurd hd (hdue hstopping), fun _ => Ti_Worker_Status.noConfusion⟩
  | some pc =>
    rw [hstopping] at hstep
    cases pc with
    | cancel =>
      obtain rfl := Option.some.inj hstep
      refine h.keep h.right ?_ ?_ rfl
      · rintro ⟨hrunning, hd⟩
        exact ⟨hrunning, notified_due s.loop ▸ hd⟩
      · rintro (hl | ⟨hrunning, hl⟩)
        · exact Or.inl hl
        · exact Or.inr ⟨hrunning, eq_woken_of_notified hl⟩
    | notify =>
      obtain rfl := Option.some.inj hstep
      exact h.keep h.right (fun hd => hd) (fun hl => hl) rfl

theorem Quiet.thread {u : τ} (h : s.Quiet) (horderly : s.ThreadOrderly (s.base.pc u))
    (hstep : s.threadStep u = some t) : t.Quiet := by
  unfold TimeBasedWorker.threadStep at hstep
  unfold ThreadOrderly at horderly
  cases hpc : s.base.pc u with
  | write op seen =>
    rw [hpc] at hstep horderly
    cases op with
    | Stop => exact h.stop horderly hstep
    | _ => exact h.write hpc (by decide) horderly hstep
  | create =>
    rw [hpc] at hstep
    obtain ⟨s', hs', rfl⟩ := Option.map_eq_some_iff.mp hstep
    exact h.create hpc hs'
  | _ =>
    rw [hpc] at hstep
    refine h.callStep hstep ?_ ?_
    · rw [hpc]
      exact fun _ _ heq => nomatch heq
    · rw [hpc]
      exact fun heq => nomatch heq

omit [DecidableEq τ] in
/-- The worker goes on in the loop. -/
theorem Quiet.goto {pc : LoopPc} {lateCallback : Bool} (h : s.Quiet)
    (hrunning : s.base.m_workingThread = some .running) (hlate : lateCallback = false)
    (hdue : pc.due = true → s.base.m_status ≠ .Status_Stopped)
    (hwoken : pc = .woken → s.base.m_status ≠ .Status_Started) :
    Quiet { s with loop := pc, lateCallback := lateCallback } := by
  refine ⟨⟨hlate, h.right.2⟩, fun hd => hdue hd.2, ?_⟩
  rintro (hl | ⟨-, hl⟩)
  · exact absurd (Option.some.inj (hrunning.symm.trans hl)) (by decide)
  · exact hwoken hl

theorem Quiet.loop {a : Action τ} {pc : LoopPc} (h : s.Quiet)
    (hrunning : s.base.m_workingThread = some .running) (horderly : s.Orderly a) (hpc : s.loop = pc)
    (hstep : s.loopStep a pc = some t) : t.Quiet := by
  have hlate := h.right.1
  have hstays : s.loop.due = true → s.base.m_status ≠ .Status_Stopped :=
    fun hd => h.due ⟨hrunning, hd⟩
  rw [hpc] at hstays
  unfold loopStep at hstep
  split at hstep
  · -- at the wait
    obtain rfl := Option.some.inj hstep
    exact h.goto hrunning hlate Bool.noConfusion LoopPc.noConfusion
  · obtain rfl := Option.some.inj hstep
    exact h.goto hrunning hlate (fun _ => horderly) LoopPc.noConfusion
  · obtain rfl := Option.some.inj hstep
    exact h.goto hrunning hlate Bool.noConfusion fun _ => horderly
  · obtain rfl := Option.some.inj hstep
    exact h.goto hrunning hlate (fun _ => hstays rfl) LoopPc.noConfusion
  · -- a callback starts, and the object is not stopped
    rename_i left
    obtain rfl := Option.some.inj hstep
    have hstarted := hstays (decide_eq_true (Nat.succ_pos left))
    refine h.goto hrunning ?_ (fun _ => hstarted) LoopPc.noConfusion
    rw [hlate, beq_eq_false_iff_ne.mpr hstarted]
    rfl
  · obtain rfl := Option.some.inj hstep
    exact h.goto hrunning hlate hstays LoopPc.noConfusion
  · obtain rfl := Option.some.inj hstep
    exact h.goto hrunning hlate Bool.noConfusion LoopPc.noConfusion
  · obtain rfl := Option.some.inj hstep
    exact h.goto hrunning hlate Bool.noConfusion LoopPc.noConfusion
  · exact h.throws hstep
  · exact nomatch hstep

/-- **The worker ends** while the object is not started, or as a callback asked. -/
theorem Quiet.returns (h : s.Quiet) (hstep : s.returnStep = some t) : t.Quiet := by
  unfold returnStep at hstep
  obtain ⟨hwhere, hstep⟩ := Option.ite_none_right_eq_some.mp hstep
  obtain ⟨s', hs', rfl⟩ := Option.map_eq_some_iff.mp hstep
  obtain ⟨base, hbase, rfl⟩ := onBase_eq hs'
  obtain ⟨-, hbase⟩ := Option.ite_none_left_eq_some.mp hbase
  obtain ⟨hphase, hbase⟩ := Option.ite_none_right_eq_some.mp hbase
  obtain rfl := Option.some.inj hbase
  have hleft : (s.base.m_status == .Status_Started &&
      !(decide (s.base.m_workingThread = some .running) && s.loop == .asked)) = false := by
    by_cases hasked : s.base.m_workingThread = some .running ∧ s.loop = .asked
    · rw [decide_eq_true hasked.1, hasked.2]
      exact Bool.and_false _
    · have hleaving : s.Leaving := by
        obtain hl | hrunning := hphase.symm
        · exact Or.inl hl
        · obtain hl | hwoken | hl := hwhere
          · exact Or.inl hl
          · exact Or.inr ⟨hrunning, hwoken⟩
          · exact absurd ⟨hrunning, hl⟩ hasked
      rw [beq_eq_false_iff_ne.mpr (h.leaving hleaving)]
      rfl
  refine ⟨⟨h.right.1, ?_⟩, (fun hd => nomatch hd.1), ?_⟩
  · exact (congrArg (s.leftStarted || ·) hleft).trans ((Bool.or_false _).trans h.right.2)
  · rintro (hl | ⟨hl, -⟩)
    · exact nomatch hl
    · exact nomatch hl

/-- **A step** in the right time keeps the invariant. -/
theorem Quiet.step {a : Action τ} (h : s.Quiet) (horderly : s.Orderly a)
    (hstep : s.step a = some t) :
    t.Quiet := by
  unfold TimeBasedWorker.step at hstep
  obtain ⟨-, hstep⟩ := Option.ite_none_left_eq_some.mp hstep
  cases a with
  | Start u => exact h.call hstep
  | Stop u => exact h.call hstep
  | thread u => exact h.thread horderly hstep
  | canLoop => exact h.enters .running rfl (Option.ite_none_right_eq_some.mp hstep).2
  | worker => exact h.worker hstep
  | wake => exact h.enters .waiting rfl hstep
  | returns => exact h.returns hstep
  | _ =>
    obtain ⟨hrunning, hstep⟩ := Option.ite_none_right_eq_some.mp hstep
    exact h.loop hrunning horderly rfl hstep

/-! ## A step in the wrong time -/

/-- What `step` is for the steps of the loop. -/
theorem loop_step {pc : LoopPc} (hterm : s.base.terminated = false)
    (hrunning : s.base.m_workingThread = some .running) (hloop : s.loop = pc) (a : Action τ) :
    (if s.base.terminated then none
      else if s.base.m_workingThread = some .running then s.loopStep a s.loop else none) =
      s.loopStep a pc := by
  rw [hterm, if_neg Bool.false_ne_true, if_pos hrunning, hloop]

/-- With a slot left to call in a stopped object, a callback is started. -/
theorem late_of_between {left : Nat} (hterm : s.base.terminated = false)
    (hrunning : s.base.m_workingThread = some .running) (hloop : s.loop = .between (left + 1))
    (hstopped : s.base.m_status = .Status_Stopped) :
    ∃ u, s.step .callback = some u ∧ u.lateCallback = true := by
  refine ⟨_, loop_step hterm hrunning hloop .callback, ?_⟩
  rw [hstopped]
  exact Bool.or_true _

/-- A callback that is due in a stopped object can be started. -/
theorem late_of_due (hterm : s.base.terminated = false) (hdue : s.CallbackDue)
    (hstopped : s.base.m_status = .Status_Stopped) :
    ∃ as u, run step s as = some u ∧ u.lateCallback = true := by
  obtain ⟨hrunning, hpc⟩ := hdue
  cases hloop : s.loop with
  | timedOut =>
    -- a callback with one slot
    have hinvoke : s.step (.invoke 1) = some { s with loop := .between 1 } :=
      loop_step hterm hrunning hloop (.invoke 1)
    obtain ⟨u, hu, hlate⟩ :=
      late_of_between (s := { s with loop := .between 1 }) hterm hrunning rfl hstopped
    exact ⟨[.invoke 1, .callback], u, run_cons.mpr ⟨_, hinvoke, run_singleton.trans hu⟩, hlate⟩
  | between left =>
    cases left with
    | zero =>
      rw [hloop] at hpc
      exact nomatch hpc
    | succ left =>
      obtain ⟨u, hu, hlate⟩ := late_of_between hterm hrunning hloop hstopped
      exact ⟨[.callback], u, run_singleton.trans hu, hlate⟩
  | inside left =>
    cases left with
    | zero =>
      rw [hloop] at hpc
      exact nomatch hpc
    | succ left =>
      have hreturns : s.step .slotReturns = some { s with loop := .between (left + 1) } :=
        loop_step hterm hrunning hloop .slotReturns
      obtain ⟨u, hu, hlate⟩ :=
        late_of_between (s := { s with loop := .between (left + 1) }) hterm hrunning rfl hstopped
      exact ⟨[.slotReturns, .callback], u, run_cons.mpr ⟨_, hreturns, run_singleton.trans hu⟩,
        hlate⟩
  | _ =>
    rw [hloop] at hpc
    exact nomatch hpc

/-- A worker on its way out of a started object can end. -/
theorem left_of_leaving (hterm : s.base.terminated = false) (hleaving : s.Leaving)
    (hstarted : s.base.m_status = .Status_Started) :
    ∃ u, s.step .returns = some u ∧ u.leftStarted = true := by
  have hphase : s.base.m_workingThread = some .running ∨ s.base.m_workingThread = some .leaving :=
    hleaving.symm.imp And.left id
  have hwhere : s.base.m_workingThread = some .leaving ∨ s.loop = .woken ∨ s.loop = .asked :=
    hleaving.imp id fun h => Or.inl h.2
  have hasked : (decide (s.base.m_workingThread = some .running) && s.loop == .asked) = false := by
    obtain hl | ⟨-, hwoken⟩ := hleaving
    · rw [hl]
      rfl
    · rw [hwoken]
      exact Bool.and_false _
  have hbase : s.base.step .returns = some { s.base with m_workingThread := some .ended } := by
    simp only [AsyncBaseThreads.step, hterm, hphase, Bool.false_eq_true, if_false, if_true]
  refine ⟨{ s with
    base := { s.base with m_workingThread := some .ended }
    leftStarted := s.leftStarted || (s.base.m_status == .Status_Started && true) }, ?_, ?_⟩
  · simp only [TimeBasedWorker.step, returnStep, onBase, hterm, hwhere, hbase, hasked,
      Bool.false_eq_true, if_false, if_true, Option.map_some, Bool.not_false]
  · rw [hstarted]
    exact Bool.or_true _

/-- A state that the wrong time leads to: a late callback is due, or the worker leaves a started
object. -/
theorem wrong_of_state (hterm : s.base.terminated = false)
    (h : s.CallbackDue ∧ s.base.m_status = .Status_Stopped ∨
      s.Leaving ∧
        s.base.m_status = .Status_Started) : ∃ as u, run step s as = some u ∧ ¬ u.Right := by
  obtain ⟨hdue, hstopped⟩ | ⟨hleaving, hstarted⟩ := h
  · obtain ⟨as, u, hrun, hlate⟩ := late_of_due hterm hdue hstopped
    exact ⟨as, u, hrun, fun hright => Bool.false_ne_true (hright.1.symm.trans hlate)⟩
  · obtain ⟨u, hu, hleft⟩ := left_of_leaving hterm hleaving hstarted
    exact ⟨[.returns], u, run_singleton.trans hu, fun hright => Bool.false_ne_true (hright.2.symm.trans hleft)⟩

theorem wrong_of_thread {u : τ} (hterm : s.base.terminated = false)
    (hstep : s.threadStep u = some t)
    (horderly : ¬ s.ThreadOrderly (s.base.pc u)) : ∃ as u, run step t as = some u ∧ ¬ u.Right := by
  unfold TimeBasedWorker.threadStep at hstep
  unfold ThreadOrderly at horderly
  cases hpc : s.base.pc u with
  | write op seen =>
    rw [hpc] at hstep horderly
    cases op with
    | Stop =>
      obtain ⟨hnone, hdue⟩ := Classical.not_imp.mp horderly
      rw [hnone] at hstep
      obtain rfl := Option.some.inj hstep
      exact wrong_of_state hterm (Or.inl ⟨not_not.mp hdue, rfl⟩)
    | _ =>
      obtain ⟨hop, hleaving⟩ := Classical.not_imp.mp horderly
      obtain ⟨base, rfl, hstatus, hworker, hterm'⟩ := write_eq hpc hstep
      refine wrong_of_state (hterm'.trans hterm) (Or.inr ⟨?_, hstatus.trans hop⟩)
      have hwas := not_not.mp hleaving
      unfold Leaving at hwas ⊢
      rwa [hworker]
  | _ =>
    rw [hpc] at horderly
    exact absurd trivial horderly

/-- **The condition leaves out only what goes wrong**: behind a step out of time, a callback can be
started late, or the worker can leave a started object. -/
theorem wrong_of_not_orderly {a : Action τ} (hstep : s.step a = some t) (horderly : ¬ s.Orderly a) :
    ∃ as u, run step t as = some u ∧ ¬ u.Right := by
  unfold TimeBasedWorker.step at hstep
  obtain ⟨hterm, hstep⟩ := Option.ite_none_left_eq_some.mp hstep
  have hterm : s.base.terminated = false := Bool.eq_false_iff.mpr hterm
  cases a with
  | thread u => exact wrong_of_thread hterm hstep horderly
  | timesOut =>
    obtain ⟨hrunning, hstep⟩ := Option.ite_none_right_eq_some.mp hstep
    cases hloop : s.loop with
    | blocked notified =>
      rw [hloop] at hstep
      obtain rfl := Option.some.inj hstep
      exact wrong_of_state hterm (Or.inl ⟨⟨hrunning, rfl⟩, not_not.mp horderly⟩)
    | _ =>
      rw [hloop] at hstep
      exact nomatch hstep
  | wakes =>
    obtain ⟨hrunning, hstep⟩ := Option.ite_none_right_eq_some.mp hstep
    cases hloop : s.loop with
    | blocked notified =>
      rw [hloop] at hstep
      obtain rfl := Option.some.inj hstep
      exact wrong_of_state hterm (Or.inr ⟨Or.inr ⟨hrunning, rfl⟩, not_not.mp horderly⟩)
    | _ =>
      rw [hloop] at hstep
      exact nomatch hstep
  | _ => exact absurd trivial horderly

/-- **No callback starts while the object is stopped, and the worker does not leave while it is
started**, in every run whose steps come in the right time. -/
theorem orderly_never_late (actions : List (Action τ))
    (horderly : Meets step Orderly initial actions) :
    Along step Right (initial : TimeBasedWorker τ) actions :=
  along_of_meets (fun _ h => h.right) (fun _ _ _ h hok ht => h.step hok ht) quiet_initial horderly

omit [DecidableEq τ] in
instance decidableThreadOrderly (s : TimeBasedWorker τ) :
    (pc : CallPc) → Decidable (s.ThreadOrderly pc)
  | .write .Stop _ => inferInstanceAs (Decidable (_ → ¬ (_ ∧ _)))
  | .write .Start _ | .write .Pause _ | .write .Resume _ =>
    inferInstanceAs (Decidable (_ → ¬ (_ ∨ _ ∧ _)))
  | .outside | .enter _ | .test _ | .launch | .create | .reap | .join | .leave => .isTrue trivial

omit [DecidableEq τ] in
instance decidableOrderly (s : TimeBasedWorker τ) : (a : Action τ) → Decidable (s.Orderly a)
  | .thread u => decidableThreadOrderly s (s.base.pc u)
  | .timesOut | .wakes => inferInstanceAs (Decidable (_ ≠ _))
  | .Start _ | .Stop _ | .canLoop | .worker | .wake | .wait | .invoke _ | .callback | .slotReturns | .loops
  | .cancels | .throws _ | .returns => .isTrue trivial

/-- A thread starts the object, and the worker comes to its wait. -/
def startsWaiting : List (Action Unit) :=
  [.Start (), .thread (), .thread (), .thread (), .thread (), .thread (), .canLoop, .worker, .worker, .wait]

/-- The object is started and calls back once; a stop cancels the next wait, and joins the
worker. -/
def stopsInTime : List (Action Unit) :=
  startsWaiting ++ [.timesOut, .invoke 1, .callback, .slotReturns, .loops, .canLoop, .worker, .worker, .wait,
    .Stop (), .thread (), .thread (), .thread (), .thread (), .thread (), .wakes, .returns,
    .thread (), .thread (), .thread ()]

theorem stopsInTime_never_late :
    (∃ s, run step initial stopsInTime = some s ∧ s.base.m_workingThread = none) ∧
      Along step Right initial stopsInTime :=
  ⟨run_of_any (by decide +kernel), orderly_never_late stopsInTime (by decide +kernel)⟩

/-- A stop writes its status behind the timeout, and before the callback. -/
def stopsLate : List (Action Unit) :=
  startsWaiting ++ [.timesOut, .Stop (), .thread (), .thread (), .thread (), .invoke 1, .callback]

/-- The wait ends by itself. -/
def wakesEarly : List (Action Unit) :=
  startsWaiting ++ [.wakes, .returns]

/-- **Both can go wrong**: a callback is started behind the stop, and a worker leaves a started
object. -/
theorem some_run_is_late :
    (∃ s, run step initial stopsLate = some s ∧ s.lateCallback = true ∧ s.base.m_status = .Status_Stopped) ∧
      ∃ s, run step initial wakesEarly = some s ∧ s.leftStarted = true ∧
        s.base.m_status = .Status_Started :=
  ⟨run_of_any (by decide +kernel), run_of_any (by decide +kernel)⟩

end TimeBasedWorker

end TiraRdp
