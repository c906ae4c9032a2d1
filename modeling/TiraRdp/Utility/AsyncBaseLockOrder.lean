import TiraRdp.Utility.AsyncBaseThreads

/-!
# The lock order of `AsyncBase`

`StartAsyncBase` takes `m_threadOpMutex` under `m_operationMutex` (`AsyncBase.cpp:80-84`),
`StopAsyncBase` joins under `m_threadOpMutex` (`:67-73`), and the worker takes `m_operationMutex` in
`CanLoopContinue` (`:7`). `WaitsFor` is who waits for whom. A start that finds a stopped object
whose worker has not ended closes the cycle (`start_stop_worker_deadlock`); otherwise a start on its
way to a worker excludes a living one, and the waits follow one order (`LockOrder.rank`).

Results: no cycle of waits where every start of a stopped object finds its worker ended
(`no_lock_order_deadlock`).
-/

namespace TiraRdp

open Lib Lib.Lts Lib.Locks

namespace AsyncBaseThreads

variable {τ : Type} [DecidableEq τ] {s s' : AsyncBaseThreads τ} {t : τ} {pc : CallPc}

/-- Who waits for whom: at a mutex for its holder, in `join` for a worker that has not ended. -/
inductive WaitsFor (s : AsyncBaseThreads τ) : Party τ → Party τ → Prop
  | operation {t : τ} {op : Operation} {p : Party τ} (hpc : s.pc t = .enter op)
      (hheld : s.m_operationMutex = some p) : WaitsFor s (.thread t) p
  | threadOp {t u : τ} (hpc : s.pc t = .launch ∨ s.pc t = .reap)
      (hheld : s.m_threadOpMutex = some u) : WaitsFor s (.thread t) (.thread u)
  | join {t : τ} {w : WorkerPhase} (hpc : s.pc t = .join) (hw : s.m_workingThread = some w)
      (hlives : w ≠ .ended) : WaitsFor s (.thread t) .worker
  | canLoop {p : Party τ} (hw : s.m_workingThread = some .enter)
      (hheld : s.m_operationMutex = some p) : WaitsFor s .worker p

/-- No worker, or one whose function has ended. -/
def WorkerGone (s : AsyncBaseThreads τ) : Prop :=
  s.m_workingThread = none ∨ s.m_workingThread = some .ended

/-- No `StartAsyncBase` finds a stopped object whose worker has not ended. -/
def StartsAlone (s : AsyncBaseThreads τ) : Action τ → Prop
  | .thread t => s.pc t = .test .Start → s.m_status = .Status_Stopped → s.WorkerGone
  | _ => True

instance (s : AsyncBaseThreads τ) : DecidablePred s.StartsAlone
  | .thread _ => inferInstanceAs (Decidable (_ → _ → _ ∨ _))
  | .call _ _ | .worker | .canLoop | .wake | .returns | .throws _ => .isTrue trivial

structure LockOrder (s : AsyncBaseThreads τ) : Prop where
  locked : Locked s
  gone : ∀ t, (s.pc t).launching = true → s.WorkerGone

theorem underOperation_of_launching (h : pc.launching = true) : pc.underOperation = true := by
  cases pc with
  | write op seen => rfl
  | launch => rfl
  | create => rfl
  | _ => simp [CallPc.launching] at h

/-- A step of `t` to `pc` that makes no worker. -/
theorem gone_moved (hpc : s'.pc = Function.update s.pc t pc)
    (hgone : ∀ u, (s.pc u).launching = true → s.WorkerGone) (hkeep : s.WorkerGone → s'.WorkerGone)
    (hself : pc.launching = true → s.WorkerGone) (u : τ) (hu : (s'.pc u).launching = true) :
    s'.WorkerGone := by
  by_cases heq : u = t
  · subst heq
    rw [pc_self hpc] at hu
    exact hkeep (hself hu)
  · rw [pc_of_ne hpc heq] at hu
    exact hkeep (hgone u hu)

theorem next_launching (op : Operation) : op.next.launching = false := by
  cases op <;> rfl

theorem gone_thread (h : LockOrder s) (halone : s.StartsAlone (.thread t))
    (hmove : ThreadMoves s t s') (u : τ) (hu : (s'.pc u).launching = true) : s'.WorkerGone := by
  have hnot {P : Prop} (hself : false = true) : P := Bool.noConfusion hself
  obtain ⟨hlocked, hgone⟩ := h
  cases hmove with
  | enter op => exact gone_moved rfl hgone id hnot u hu
  | acts op hpc _ =>
    refine gone_moved rfl hgone id (fun hself => ?_) u hu
    cases op with
    | Start =>
      refine halone hpc ?_
      cases hseen : s.m_status with
      | Status_Stopped => rfl
      | _ => simp [CallPc.launching, hseen] at hself
    | _ => simp [CallPc.launching] at hself
  | skips op =>
    exact gone_moved rfl hgone id (fun hself => by simp [next_launching] at hself) u hu
  | starts hpc => exact gone_moved rfl hgone id (fun _ => hgone t (by rw [hpc]; rfl)) u hu
  | writes op seen =>
    exact gone_moved rfl hgone id (fun hself => by simp [next_launching] at hself) u hu
  | launch hpc => exact gone_moved rfl hgone id (fun _ => hgone t (by rw [hpc]; rfl)) u hu
  | terminates => exact hgone u hu
  | create hpc hw =>
    -- nobody else is under `m_operationMutex`
    by_cases heq : u = t
    · subst heq
      simp [next_launching] at hu
    · rw [pc_of_ne (s := s) (t := t) rfl heq] at hu
      have hboth : Party.thread u = Party.thread t := by
        refine hlocked.operation.unique (underOperation_of_launching hu) ?_
        rw [UnderOperation, hpc]
        rfl
      exact absurd (Party.thread.inj hboth) heq
  | reap => exact gone_moved rfl hgone id hnot u hu
  | absent => exact gone_moved rfl hgone id hnot u hu
  | joined => exact gone_moved rfl hgone (fun _ => .inl rfl) hnot u hu
  | leave => exact gone_moved rfl hgone id hnot u hu

theorem LockOrder.step {a : Action τ} (h : LockOrder s) (halone : s.StartsAlone a)
    (hs : step s a = some s') : LockOrder s' := by
  refine ⟨h.locked.step hs, fun u hu => ?_⟩
  have hgone := h.gone
  cases step_moves hs with
  | call t op =>
    refine gone_moved (callStep_pc s t op) hgone ?_ nofun u hu
    rw [WorkerGone, WorkerGone, callStep_m_workingThread]
    exact id
  | thread t hmove => exact gone_thread h halone hmove u hu
  | roams _ w w' hw hfrom hto hlives =>
    -- a worker that goes on has not ended, so nobody was launching
    have hw' := hgone u hu
    simp [WorkerGone, hw, hlives] at hw'
  | locks hw =>
    have hw' := hgone u hu
    simp [WorkerGone, hw] at hw'
  | unlocks w hw =>
    have hw' := hgone u hu
    simp [WorkerGone, hw] at hw'
  | fails hw => exact .inr rfl
  | terminates => exact hgone u hu

/-- The rank of a party in a phase of a call: it waits only for lower ones. -/
def phaseRank : CallPc → Nat
  | .enter _ => 5
  | .launch => 3
  | .reap => 3
  | .join => 2
  | _ => 0

def lockRank (s : AsyncBaseThreads τ) : Party τ → Nat
  | .worker => 1
  | .thread t => phaseRank (s.pc t)

theorem phaseRank_of_underOperation (h : pc.underOperation = true) : phaseRank pc ≤ 3 := by
  cases pc with
  | enter op => simp [CallPc.underOperation] at h
  | _ => simp [phaseRank]

theorem phaseRank_of_underThreadOp (h : pc.underThreadOp = true) : phaseRank pc ≤ 2 := by
  cases pc with
  | create => decide
  | join => decide
  | leave => decide
  | _ => simp [CallPc.underThreadOp] at h

/-- Under `m_operationMutex`, and not on the way to a worker: nothing to wait for. -/
theorem phaseRank_eq_zero (h : pc.underOperation = true) (hl : pc.launching = false) :
    phaseRank pc = 0 := by
  cases pc with
  | test op => rfl
  | write op seen => rfl
  | launch => simp [CallPc.launching] at hl
  | create => rfl
  | _ => simp [CallPc.underOperation] at h

omit [DecidableEq τ] in
theorem LockOrder.rank (h : LockOrder s) (p q : Party τ) (hwait : s.WaitsFor p q) :
    s.lockRank q < s.lockRank p := by
  obtain ⟨hlocked, hgone⟩ := h
  have hworker : s.lockRank .worker = 1 := rfl
  cases hwait with
  | @operation t op _ hpc hheld =>
    have hunder := (hlocked.operation q).mp hheld
    have hrank : s.lockRank (.thread t) = 5 := by rw [lockRank, hpc]; rfl
    cases q with
    | worker => omega
    | thread u =>
      have hle : s.lockRank (.thread u) ≤ 3 := phaseRank_of_underOperation hunder
      omega
  | @threadOp t u hpc hheld =>
    have hrank : s.lockRank (.thread t) = 3 := by
      rcases hpc with hpc | hpc
      · rw [lockRank, hpc]; rfl
      · rw [lockRank, hpc]; rfl
    have hle : s.lockRank (.thread u) ≤ 2 :=
      phaseRank_of_underThreadOp ((hlocked.threadOp u).mp hheld)
    omega
  | @join t w hpc hw hlives =>
    have hrank : s.lockRank (.thread t) = 2 := by rw [lockRank, hpc]; rfl
    omega
  | canLoop hw hheld =>
    have hunder := (hlocked.operation q).mp hheld
    cases q with
    | worker => simp [UnderOperation, hw] at hunder
    | thread u =>
      -- the worker is alive, so the holder is not making another
      have hl : (s.pc u).launching = false := by
        cases hlaunch : (s.pc u).launching with
        | false => rfl
        | true => simpa [WorkerGone, hw] using hgone u hlaunch
      have hzero : s.lockRank (.thread u) = 0 := phaseRank_eq_zero hunder hl
      omega

omit [DecidableEq τ] in
theorem LockOrder.initial : LockOrder (initial : AsyncBaseThreads τ) :=
  ⟨Locked.initial, fun _ _ => .inl rfl⟩

/-- **The mutexes and the join** wait in one order: no run in which every start of a stopped object
finds its worker ended leads to a cycle of waits. -/
theorem no_lock_order_deadlock (as : List (Action τ)) (s : AsyncBaseThreads τ)
    (hrun : run step initial as = some s) (halone : Meets step StartsAlone initial as) :
    ¬ Deadlock s.WaitsFor := by
  have hinv := run_invariant (fun s a s' h hok hs => h.step hok hs) LockOrder.initial halone hrun
  exact not_deadlock_of_rank hinv.rank

theorem no_lock_order_deadlock_stop :
    ∃ s, run step initial startedAndStopped = some s ∧ ¬ Deadlock s.WaitsFor := by
  have hsome : (run step initial startedAndStopped).isSome = true := by decide
  obtain ⟨s, hs⟩ := Option.isSome_iff_exists.mp hsome
  exact ⟨s, hs, no_lock_order_deadlock startedAndStopped s hs (by decide)⟩

/-- A stop has written its status and joins; a start finds the object stopped and waits for the
stop under `m_operationMutex`; the worker comes to `CanLoopContinue`. -/
def startDuringStop : List (Action Bool) :=
  .call false .Start :: .replicate 5 (.thread false) ++ .call true .Stop ::
    .replicate 4 (.thread true) ++ .call false .Start :: .replicate 3 (.thread false) ++ [.canLoop]

theorem start_stop_worker_deadlock :
    ¬ ∀ (as : List (Action Bool)) (s : AsyncBaseThreads Bool),
      run step initial as = some s → ¬ Deadlock s.WaitsFor := by
  intro h
  have hend : (run step initial startDuringStop).any (fun s =>
      s.pc true = .join ∧ s.m_workingThread = some .enter ∧ s.m_threadOpMutex = some true ∧
        s.pc false = .launch ∧ s.m_operationMutex = some (.thread false)) = true := by decide
  obtain ⟨s, hs, hjoin, hworker, hthreadOp, hlaunch, hoperation⟩ := run_of_any hend
  refine h startDuringStop s hs ?_
  exact .of_three (.join hjoin hworker (by decide)) (.canLoop hworker hoperation)
    (.threadOp (.inl hlaunch) hthreadOp)

end AsyncBaseThreads

end TiraRdp
