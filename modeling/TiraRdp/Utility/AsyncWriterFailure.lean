import TiraRdp.Utility.AsyncWriter

/-!
# Callers that a worker leaves behind

The worker of an `AsyncWriter` ends when `CanLoopContinue` says so or when an `ExceptionWithString`
leaves `Workloop` (`AsyncBase.cpp:85-99`). Its end is a status: the thread's function signals
nobody. `WriteBytes` tests the status before it queues for `m_WriteMtx`, `WaitTillSourceIdeal` not
at all, so both may be in a wait on the ring when nobody is left to read it, or come to one. Of the
operations of `Cancel` and `Close` only `CancelWrite` wakes the writer then, and only `CancelWait`
the waiters.

Results: no state of a run has a blocked caller, an ended worker and no cancel pending that wakes
the caller, exactly when the worker ends beside no such caller and none blocks behind it
(`never_stranded_iff`); such a state is left only by a further `Cancel` or `Close`, or spuriously
(`stranded_on`).
-/

namespace TiraRdp

open Lib Lib.Lts

/-- In the wait on `m_WriteCV`. -/
def WriterPc.waits : WriterPc → Bool
  | .waiting _ => true
  | _ => false

/-- In the wait on `m_WaitCV`. -/
def WaiterPc.waits : WaiterPc → Bool
  | .waiting _ => true
  | _ => false

@[simp] theorem WriterPc.waits_notified (pc : WriterPc) : pc.notified.waits = false := by
  cases pc <;> rfl

@[simp] theorem WaiterPc.waits_notified (pc : WaiterPc) : pc.notified.waits = false := by
  cases pc <;> rfl

theorem WorkerPc.notified_eq_ended {pc : WorkerPc} (h : pc.notified = .ended) : pc = .ended := by
  cases pc with
  | waiting r => cases h
  | _ => exact h

namespace AsyncWriter

/-- A call of `Cancel` or `Close` in progress has the operation still to do. -/
def Pending (s : AsyncWriter) (op : CancelOp) : Prop :=
  op ∈ s.closing ∨ ∃ ops ∈ s.cancellers, op ∈ ops

/-- A writer is blocked on the ring, and no cancel is on its way to it. -/
def WriterStuck (s : AsyncWriter) : Prop := s.writer.waits = true ∧ ¬ s.Pending .write

/-- A caller of `WaitTillSourceIdeal` is blocked on the ring, and no cancel is on its way to it. -/
def WaiterStuck (s : AsyncWriter) : Prop := s.waiters.any WaiterPc.waits = true ∧ ¬ s.Pending .wait

/-- The worker has ended and left a caller blocked. -/
def Stranded (s : AsyncWriter) : Prop := s.worker = .ended ∧ (s.WriterStuck ∨ s.WaiterStuck)

/-- The next step of the worker is its last. -/
def ends (s : AsyncWriter) : Bool :=
  match s.worker with
  | .canLoop => AsyncBase.CanLoopContinue s.m_status == some false
  | .catching e => e.isExceptionWithString
  | _ => false

/-- The steps that strand nobody: the worker does not end beside a blocked caller, and behind it
none blocks, unless the cancel that wakes the caller is pending. -/
def StrandsNone (s : AsyncWriter) : Action → Prop
  | .worker => s.ends = true → ¬ s.WriterStuck ∧ ¬ s.WaiterStuck
  | .writer => s.worker = .ended → s.m_Buffer.m_IsCancelWrite = false →
      ¬ 0 < subU32 s.m_Buffer.m_Size s.m_Buffer.m_DataLen → ∀ buffer, s.writer = .lock buffer →
        s.Pending .write
  | .waiter i => s.worker = .ended → s.m_Buffer.m_IsCancelWait = false → s.m_Buffer.m_DataLen ≠ 0 →
      ∀ since, s.waiters[i]? = some (.lock since) → s.Pending .wait
  | _ => True

instance (s : AsyncWriter) (op : CancelOp) : Decidable (s.Pending op) :=
  inferInstanceAs (Decidable (_ ∨ _))

instance (s : AsyncWriter) : Decidable s.WriterStuck :=
  inferInstanceAs (Decidable (_ ∧ _))

instance (s : AsyncWriter) : Decidable s.WaiterStuck :=
  inferInstanceAs (Decidable (_ ∧ _))

instance (s : AsyncWriter) : Decidable s.Stranded :=
  inferInstanceAs (Decidable (_ ∧ _))

instance (s : AsyncWriter) : DecidablePred s.StrandsNone
  | .worker => inferInstanceAs (Decidable (_ → _))
  | .writer =>
    match hpc : s.writer with
    | .lock _ =>
      decidable_of_iff
        (s.worker = .ended → s.m_Buffer.m_IsCancelWrite = false →
          ¬ 0 < subU32 s.m_Buffer.m_Size s.m_Buffer.m_DataLen → s.Pending .write)
        (by simp [StrandsNone, hpc])
    | .idle | .test _ | .waiting _ | .notify _ | .leave _ _ => .isTrue (by simp [StrandsNone, hpc])
  | .waiter i =>
    match hpc : s.waiters[i]? with
    | some (.lock _) =>
      decidable_of_iff
        (s.worker = .ended → s.m_Buffer.m_IsCancelWait = false → s.m_Buffer.m_DataLen ≠ 0 →
          s.Pending .wait)
        (by simp [StrandsNone, hpc])
    | some (.waiting _) | some (.source _) | none => .isTrue (by simp [StrandsNone, hpc])
  | .WriteBytes _ | .lockWrite _ | .wakeWriter | .wakeWorker | .source _ | .WaitTillSourceIdeal
  | .wakeWaiter _ | .Cancel | .canceller _ | .Close | .closer => .isTrue trivial

variable {s t u : AsyncWriter} {a : Action} {op : CancelOp}

/-! ## One step -/

@[simp] theorem cancelStep_pending (op' : CancelOp) :
    (u.cancelStep op).Pending op' ↔ u.Pending op' := by
  cases op <;> exact Iff.rfl

theorem cancelStep_ended (h : (u.cancelStep op).worker = .ended) : u.worker = .ended := by
  cases op with
  | read => exact WorkerPc.notified_eq_ended h
  | write => exact h
  | wait => exact h

/-- A writer that still waits was not the one to wake. -/
theorem cancelStep_writer_waits (h : (u.cancelStep op).writer.waits = true) :
    u.writer.waits = true ∧ op ≠ .write := by
  cases op with
  | read => exact ⟨h, nofun⟩
  | write => exact absurd h (by simp [cancelStep])
  | wait => exact ⟨h, nofun⟩

/-- Waiters that still wait were not those to wake. -/
theorem cancelStep_waiters_wait (h : (u.cancelStep op).waiters.any WaiterPc.waits = true) :
    u.waiters.any WaiterPc.waits = true ∧ op ≠ .wait := by
  cases op with
  | read => exact ⟨h, nofun⟩
  | write => exact ⟨h, nofun⟩
  | wait => exact absurd h (by simp [cancelStep])

/-- An operation of a cancel strands nobody: whom it is to wake, it wakes. -/
theorem not_stranded_cancelStep (hfree : ¬ s.Stranded) (hworker : u.worker = s.worker)
    (hwriter : u.writer = s.writer) (hwaiters : u.waiters = s.waiters)
    (hpending : ∀ op', s.Pending op' → op' = op ∨ u.Pending op') :
    ¬ (u.cancelStep op).Stranded := by
  rintro ⟨hended, hstuck⟩
  refine hfree ⟨hworker ▸ cancelStep_ended hended, ?_⟩
  rcases hstuck with ⟨hwaits, hnone⟩ | ⟨hwaits, hnone⟩
  · obtain ⟨hwaits', hother⟩ := cancelStep_writer_waits hwaits
    refine .inl ⟨hwriter ▸ hwaits', fun hp => ?_⟩
    rcases hpending .write hp with heq | hp'
    · exact hother heq.symm
    · exact hnone ((cancelStep_pending _).mpr hp')
  · obtain ⟨hwaits', hother⟩ := cancelStep_waiters_wait hwaits
    refine .inr ⟨hwaiters ▸ hwaits', fun hp => ?_⟩
    rcases hpending .wait hp with heq | hp'
    · exact hother heq.symm
    · exact hnone ((cancelStep_pending _).mpr hp')

/-- A step strands nobody when whoever waits behind it waited before, and what was pending
still is. -/
theorem not_stranded_of (hfree : ¬ s.Stranded) (hended : t.worker = .ended → s.worker = .ended)
    (hwriter : t.writer.waits = true → s.writer.waits = true)
    (hwaiters : t.waiters.any WaiterPc.waits = true → s.waiters.any WaiterPc.waits = true)
    (hpending : ∀ op, s.Pending op → t.Pending op) : ¬ t.Stranded := by
  rintro ⟨hend, hstuck⟩
  refine hfree ⟨hended hend, ?_⟩
  rcases hstuck with ⟨hwaits, hnone⟩ | ⟨hwaits, hnone⟩
  · exact .inl ⟨hwriter hwaits, fun hp => hnone (hpending .write hp)⟩
  · exact .inr ⟨hwaiters hwaits, fun hp => hnone (hpending .wait hp)⟩

/-- What waits behind a step of one caller waited before, unless it is that caller. -/
theorem any_of_set {l : List WaiterPc} {i : Nat} {pc : WaiterPc} (hpc : pc.waits = false)
    (h : (l.set i pc).any WaiterPc.waits = true) : l.any WaiterPc.waits = true := by
  obtain ⟨x, hx, hwaits⟩ := List.any_eq_true.mp h
  rcases List.mem_or_eq_of_mem_set hx with hmem | rfl
  · exact List.any_eq_true.mpr ⟨x, hmem, hwaits⟩
  · rw [hpc] at hwaits
    cases hwaits

theorem any_of_eraseIdx {l : List WaiterPc} {i : Nat}
    (h : (l.eraseIdx i).any WaiterPc.waits = true) :
    l.any WaiterPc.waits = true := by
  obtain ⟨x, hx, hwaits⟩ := List.any_eq_true.mp h
  exact List.any_eq_true.mpr ⟨x, List.mem_of_mem_eraseIdx hx, hwaits⟩

theorem any_of_modify {l : List WaiterPc} {i : Nat}
    (h : (l.modify i .notified).any WaiterPc.waits = true) : l.any WaiterPc.waits = true := by
  obtain ⟨x, hx, hwaits⟩ := List.any_eq_true.mp h
  rcases mem_of_mem_modify hx with hmem | ⟨y, hmem, rfl⟩
  · exact List.any_eq_true.mpr ⟨x, hmem, hwaits⟩
  · rw [WaiterPc.waits_notified] at hwaits
    cases hwaits

/-- A step that strands nobody. -/
theorem not_stranded_step (hfree : ¬ s.Stranded) (hok : s.StrandsNone a) (hs : step s a = some t) :
    ¬ t.Stranded := by
  cases step_moves hs with
  | queues buffer | refuses buffer => exact hfree
  | locksWrite _ _ hpc | writesOn _ hpc | writeEnds _ hpc | writeThrows _ hpc | stores _ hpc
  | writerLeaves _ _ hpc =>
    exact not_stranded_of hfree id nofun id fun _ => id
  | writerWaits buffer hpc hflag hfull =>
    rintro ⟨hended, ⟨hwaits, hnone⟩ | hstuck⟩
    · exact hnone (hok hended hflag hfull buffer hpc)
    · exact hfree ⟨hended, .inr hstuck⟩
  | notifiesRead buffer hpc =>
    exact not_stranded_of hfree WorkerPc.notified_eq_ended nofun id fun _ => id
  | wakeWriter => exact not_stranded_of hfree id (by simp) id fun _ => id
  | loopEnds hpc hopen hstop =>
    have hends : s.ends = true := by simp [ends, hpc, hstop]
    rintro ⟨-, hstuck | hstuck⟩
    · exact (hok hends).1 hstuck
    · exact (hok hends).2 hstuck
  | catches e m_status hpc hexit =>
    have hends : s.ends = true := by
      unfold AsyncBase.threadExit at hexit
      simp only [Option.ite_none_right_eq_some] at hexit
      simp only [ends, hpc, hexit.1]
    rintro ⟨-, hstuck | hstuck⟩
    · exact (hok hends).1 hstuck
    · exact (hok hends).2 hstuck
  | loops hpc _ | readsOn _ hpc | readEnds _ hpc | readThrows _ hpc | takes _ hpc | workerWaits _ hpc
  | notifiesWrite _ hpc | notifiesWait _ hpc | readCancelled _ hpc =>
    rintro ⟨hended, -⟩
    cases hended
  | readReturns r hpc =>
    rintro ⟨hended, -⟩
    dsimp only at hended
    split_ifs at hended
  | delivers r ends hpc =>
    rintro ⟨hended, -⟩
    cases ends <;> cases hended
  | terminates e hpc hexit => exact not_stranded_of hfree id id id fun _ => id
  | wakeWorker => exact not_stranded_of hfree WorkerPc.notified_eq_ended id id fun _ => id
  | WaitTillSourceIdeal =>
    exact not_stranded_of hfree id id (by simp [WaiterPc.waits]) fun _ => id
  | passes i since hpc hempty => exact not_stranded_of hfree id id (any_of_set rfl) fun _ => id
  | waitThrows i since hpc | returns i since hpc =>
    exact not_stranded_of hfree id id any_of_eraseIdx fun _ => id
  | waiterWaits i since hpc hflag hdata =>
    rintro ⟨hended, hstuck | ⟨hwaits, hnone⟩⟩
    · exact hfree ⟨hended, .inl hstuck⟩
    · exact hnone (hok hended hflag hdata since hpc)
  | wakeWaiter i => exact not_stranded_of hfree id id any_of_modify fun _ => id
  | Cancel =>
    refine not_stranded_of hfree id id id fun op hp => ?_
    rcases hp with hclosing | ⟨ops, hmem, hop⟩
    · exact .inl hclosing
    · exact .inr ⟨ops, List.mem_append_left _ hmem, hop⟩
  | cancels i op ops hop =>
    refine not_stranded_cancelStep hfree rfl rfl rfl fun op' hp => ?_
    rcases hp with hclosing | ⟨todo, hmem, htodo⟩
    · exact .inr (.inl hclosing)
    · obtain ⟨j, hj⟩ := List.mem_iff_getElem?.mp hmem
      by_cases hij : i = j
      · rw [← hij, hop, Option.some.injEq] at hj
        subst hj
        rcases List.mem_cons.mp htodo with heq | hrest
        · exact .inl heq
        · have hlt : i < s.cancellers.length := (List.getElem?_eq_some_iff.mp hop).1
          exact .inr (.inr ⟨ops, List.mem_set hlt ops, hrest⟩)
      · have hj' : (s.cancellers.set i ops)[j]? = some todo := by rw [List.getElem?_set_ne hij, hj]
        exact .inr (.inr ⟨todo, List.mem_of_getElem? hj', htodo⟩)
  | Close hopen =>
    refine not_stranded_of hfree id id id fun op hp => ?_
    rcases hp with hclosing | hmem
    · rw [hopen] at hclosing
      cases hclosing
    · exact .inr hmem
  | closes op ops hop =>
    refine not_stranded_cancelStep hfree rfl rfl rfl fun op' hp => ?_
    rcases hp with hclosing | hmem
    · rw [hop] at hclosing
      rcases List.mem_cons.mp hclosing with heq | hrest
      · exact .inl heq
      · exact .inr (.inl hrest)
    · exact .inr (.inr hmem)

/-- A step that is not one of these strands somebody. -/
theorem stranded_of_not_strandsNone (hok : ¬ s.StrandsNone a) (hs : step s a = some t) :
    t.Stranded := by
  cases step_moves hs with
  | writerWaits buffer hpc hflag hfull =>
    simp only [StrandsNone, not_forall] at hok
    obtain ⟨hended, -, -, _, -, hnone⟩ := hok
    exact ⟨hended, .inl ⟨rfl, hnone⟩⟩
  | writesOn _ hpc | writeEnds _ hpc | notifiesRead _ hpc | writerLeaves _ _ hpc =>
    simp only [StrandsNone, not_forall] at hok
    obtain ⟨-, -, -, buffer, hlock, -⟩ := hok
    rw [hpc] at hlock
    cases hlock
  | writeThrows buffer hpc hset =>
    simp only [StrandsNone, not_forall] at hok
    obtain ⟨-, hflag, -⟩ := hok
    rw [hset] at hflag
    cases hflag
  | stores buffer hpc hroom =>
    simp only [StrandsNone, not_forall] at hok
    obtain ⟨-, -, hfull, -⟩ := hok
    exact absurd hroom hfull
  | loopEnds hpc | catches _ _ hpc =>
    simp only [StrandsNone, Classical.not_imp, not_and_or, not_not] at hok
    exact ⟨rfl, hok.2⟩
  | loops hpc hgo =>
    simp only [StrandsNone, Classical.not_imp, ends, hpc, hgo] at hok
    exact absurd hok.1 (by decide)
  | terminates e hpc hexit =>
    simp only [StrandsNone, Classical.not_imp, ends, hpc] at hok
    simp only [AsyncBase.threadExit, if_pos hok.1, reduceCtorEq] at hexit
  | readsOn _ hpc | readEnds _ hpc | readThrows _ hpc | takes _ hpc | workerWaits _ hpc
  | notifiesWrite _ hpc | notifiesWait _ hpc | readCancelled _ hpc | readReturns _ hpc =>
    simp only [StrandsNone, Classical.not_imp, ends, hpc] at hok
    exact absurd hok.1 Bool.false_ne_true
  | waiterWaits i since hpc hflag hdata =>
    simp only [StrandsNone, not_forall] at hok
    obtain ⟨hended, -, -, _, -, hnone⟩ := hok
    have hlt : i < s.waiters.length := (List.getElem?_eq_some_iff.mp hpc).1
    have hwaits : (s.waiters.set i (.waiting since)).any WaiterPc.waits = true :=
      List.any_eq_true.mpr ⟨_, List.mem_set hlt _, rfl⟩
    exact ⟨hended, .inr ⟨hwaits, hnone⟩⟩
  | passes i since hpc hempty =>
    simp only [StrandsNone, not_forall] at hok
    obtain ⟨-, -, hdata, -⟩ := hok
    exact absurd hempty hdata
  | waitThrows i since hpc hset =>
    simp only [StrandsNone, not_forall] at hok
    obtain ⟨-, hflag, -⟩ := hok
    rw [hset] at hflag
    cases hflag
  | returns i since hpc =>
    simp only [StrandsNone, not_forall] at hok
    obtain ⟨-, -, -, since', hlock, -⟩ := hok
    rw [hpc] at hlock
    cases hlock
  | _ => exact absurd trivial hok

/-! ## Left behind for good -/

theorem any_set_of {l : List WaiterPc} {i : Nat} {pc pc' : WaiterPc} (hi : l[i]? = some pc)
    (hpc : pc.waits = false) (h : l.any WaiterPc.waits = true) :
    (l.set i pc').any WaiterPc.waits = true := by
  obtain ⟨x, hx, hwaits⟩ := List.any_eq_true.mp h
  obtain ⟨j, hj⟩ := List.mem_iff_getElem?.mp hx
  have hij : i ≠ j := by
    rintro rfl
    rw [hi, Option.some.injEq] at hj
    rw [← hj, hpc] at hwaits
    cases hwaits
  have hj' : (l.set i pc')[j]? = some x := by rw [List.getElem?_set_ne hij, hj]
  exact List.any_eq_true.mpr ⟨x, List.mem_of_getElem? hj', hwaits⟩

theorem any_eraseIdx_of {l : List WaiterPc} {i : Nat} {pc : WaiterPc} (hi : l[i]? = some pc)
    (hpc : pc.waits = false) (h : l.any WaiterPc.waits = true) :
    (l.eraseIdx i).any WaiterPc.waits = true := by
  obtain ⟨x, hx, hwaits⟩ := List.any_eq_true.mp h
  obtain ⟨j, hj⟩ := List.mem_iff_getElem?.mp hx
  have hji : j ≠ i := by
    rintro rfl
    rw [hi, Option.some.injEq] at hj
    rw [← hj, hpc] at hwaits
    cases hwaits
  exact List.any_eq_true.mpr ⟨x, List.mem_eraseIdx_iff_getElem?.mpr ⟨j, hji, hj⟩, hwaits⟩

theorem pending_of_set {i : Nat} {ops : List CancelOp} (hop : s.cancellers[i]? = some (op :: ops))
    {op' : CancelOp} (h : Pending { s with cancellers := s.cancellers.set i ops } op') :
    s.Pending op' := by
  rcases h with hclosing | ⟨todo, hmem, htodo⟩
  · exact .inl hclosing
  · rcases List.mem_or_eq_of_mem_set hmem with hmem' | rfl
    · exact .inr ⟨todo, hmem', htodo⟩
    · exact .inr ⟨_, List.mem_of_getElem? hop, List.mem_cons_of_mem op htodo⟩

theorem pending_of_tail {ops : List CancelOp} (hop : s.closing = op :: ops) {op' : CancelOp}
    (h : Pending { s with closing := ops } op') : s.Pending op' := by
  rcases h with hclosing | hmem
  · exact .inl (hop ▸ List.mem_cons_of_mem op hclosing)
  · exact .inr hmem

theorem cancelStep_writer (h : op ≠ .write) : (u.cancelStep op).writer = u.writer := by
  cases op with
  | write => exact absurd rfl h
  | _ => rfl

theorem cancelStep_waiters (h : op ≠ .wait) : (u.cancelStep op).waiters = u.waiters := by
  cases op with
  | wait => exact absurd rfl h
  | _ => rfl

/-- The steps that do not start a cancel, and are not spurious. -/
def Action.plain : Action → Bool
  | .Cancel => false
  | .Close => false
  | .wakeWriter => false
  | .wakeWaiter _ => false
  | _ => true

/-- Behind an ended worker a stuck writer stays so. -/
theorem WriterStuck.step (h : s.WriterStuck) (hended : s.worker = .ended) (ha : a.plain = true)
    (hs : AsyncWriter.step s a = some t) : t.WriterStuck := by
  obtain ⟨hwaits, hnone⟩ := h
  cases step_moves hs with
  | locksWrite _ _ hpc | writesOn _ hpc | writeEnds _ hpc | writeThrows _ hpc | stores _ hpc
  | writerWaits _ hpc | notifiesRead _ hpc | writerLeaves _ _ hpc =>
    rw [hpc] at hwaits
    cases hwaits
  | loops hpc | loopEnds hpc | readsOn _ hpc | readEnds _ hpc | readThrows _ hpc | takes _ hpc
  | workerWaits _ hpc | notifiesWrite _ hpc | notifiesWait _ hpc | readCancelled _ hpc
  | readReturns _ hpc | catches _ _ hpc | terminates _ hpc | delivers _ _ hpc =>
    rw [hended] at hpc
    cases hpc
  | wakeWriter | Cancel | Close => cases ha
  | cancels i op ops hop =>
    have hne : op ≠ .write := by
      rintro rfl
      exact hnone (.inr ⟨_, List.mem_of_getElem? hop, List.mem_cons_self⟩)
    refine ⟨?_, fun hp => hnone (pending_of_set hop ((cancelStep_pending _).mp hp))⟩
    rw [cancelStep_writer hne]
    exact hwaits
  | closes op ops hop =>
    have hne : op ≠ .write := by
      rintro rfl
      exact hnone (.inl (hop ▸ List.mem_cons_self))
    refine ⟨?_, fun hp => hnone (pending_of_tail hop ((cancelStep_pending _).mp hp))⟩
    rw [cancelStep_writer hne]
    exact hwaits
  | _ => exact ⟨hwaits, hnone⟩

/-- Behind an ended worker there stays a stuck caller of `WaitTillSourceIdeal`. -/
theorem WaiterStuck.step (h : s.WaiterStuck) (hended : s.worker = .ended) (ha : a.plain = true)
    (hs : AsyncWriter.step s a = some t) : t.WaiterStuck := by
  obtain ⟨hwaits, hnone⟩ := h
  cases step_moves hs with
  | loops hpc | loopEnds hpc | readsOn _ hpc | readEnds _ hpc | readThrows _ hpc | takes _ hpc
  | workerWaits _ hpc | notifiesWrite _ hpc | notifiesWait _ hpc | readCancelled _ hpc
  | readReturns _ hpc | catches _ _ hpc | terminates _ hpc | delivers _ _ hpc =>
    rw [hended] at hpc
    cases hpc
  | WaitTillSourceIdeal =>
    refine ⟨?_, hnone⟩
    rw [List.any_append, hwaits, Bool.true_or]
  | passes i since hpc | waiterWaits i since hpc => exact ⟨any_set_of hpc rfl hwaits, hnone⟩
  | waitThrows i since hpc | returns i since hpc => exact ⟨any_eraseIdx_of hpc rfl hwaits, hnone⟩
  | wakeWriter | wakeWaiter i | Cancel | Close => cases ha
  | cancels i op ops hop =>
    have hne : op ≠ .wait := by
      rintro rfl
      exact hnone (.inr ⟨_, List.mem_of_getElem? hop, List.mem_cons_self⟩)
    refine ⟨?_, fun hp => hnone (pending_of_set hop ((cancelStep_pending _).mp hp))⟩
    rw [cancelStep_waiters hne]
    exact hwaits
  | closes op ops hop =>
    have hne : op ≠ .wait := by
      rintro rfl
      exact hnone (.inl (hop ▸ List.mem_cons_self))
    refine ⟨?_, fun hp => hnone (pending_of_tail hop ((cancelStep_pending _).mp hp))⟩
    rw [cancelStep_waiters hne]
    exact hwaits
  | _ => exact ⟨hwaits, hnone⟩

/-- An ended worker does nothing more. -/
theorem ended_on (hended : s.worker = .ended) (hs : step s a = some t) : t.worker = .ended := by
  cases step_moves hs with
  | loopEnds | catches => rfl
  | loops hpc | readsOn _ hpc | readEnds _ hpc | readThrows _ hpc | takes _ hpc
  | workerWaits _ hpc | notifiesWrite _ hpc | notifiesWait _ hpc | readCancelled _ hpc
  | readReturns _ hpc | delivers _ _ hpc =>
    rw [hended] at hpc
    cases hpc
  | notifiesRead | wakeWorker => exact congrArg WorkerPc.notified hended
  | cancels i op ops hop | closes op ops hop =>
    cases op with
    | read => exact congrArg WorkerPc.notified hended
    | _ => exact hended
  | _ => exact hended

/-- **A stranded caller stays**: nothing but a further cancel, or a spurious wake-up, ends it. -/
theorem stranded_on (h : s.Stranded) (ha : a.plain = true) (hs : step s a = some t) :
    t.Stranded := by
  obtain ⟨hended, hstuck⟩ := h
  refine ⟨ended_on hended hs, ?_⟩
  rcases hstuck with hwriter | hwaiter
  · exact .inl (hwriter.step hended ha hs)
  · exact .inr (hwaiter.step hended ha hs)

theorem stranded_forever {as : List Action} (h : s.Stranded) (has : ∀ a ∈ as, a.plain = true) :
    Along step Stranded s as :=
  along_of_invariant (fun _ h => h) (fun _ _ _ h ha hs => stranded_on h ha hs) h has

/-! ## Runs -/

/-- **No caller is left behind**, in any state of a run, exactly when each step of the run is one of
those that strand nobody: for every ring and package size, and every order of the steps of writers,
waiters, worker and cancels, whatever the source throws. -/
theorem never_stranded_iff (fresh : Mem UInt8) (bufferSize maxPkgSize minPkgSize : Nat)
    (as : List Action) (s : AsyncWriter)
    (hrun : run step (new fresh bufferSize maxPkgSize minPkgSize) as = some s) :
    Meets step StrandsNone (new fresh bufferSize maxPkgSize minPkgSize) as ↔
      Along step (fun s => ¬ s.Stranded) (new fresh bufferSize maxPkgSize minPkgSize) as :=
  meets_iff_along (p := fun _ => True) (fun _ h => h)
    (fun _ _ _ h _ hok hs => not_stranded_step h hok hs)
    (fun _ _ _ _ _ hok hs => not_not.mpr (stranded_of_not_strandsNone hok hs)) (fun h => nomatch h.1)
    (fun _ _ => trivial) hrun

/-- Three bytes through a ring of one: the source throws on the first, and the writer waits with the
third. -/
def failing : List Action :=
  [.WriteBytes [1, 2, 3], .lockWrite 0, .writer, .writer, .worker, .worker, .worker, .worker, .worker,
    .worker, .worker, .writer, .writer, .writer, .writer, .writer, .writer,
    .source (.error (.exceptionWithString "the source failed"))]

/-- `Close` comes before the end of the worker, and wakes the writer behind it. -/
def closedInTime : List Action := failing ++ [.Close, .worker, .closer, .closer, .closer, .writer]

theorem never_stranded_closed :
    (run step (new (fun _ => 0) 1 1 1) closedInTime).isSome = true ∧
      Along step (fun s => ¬ s.Stranded) (new (fun _ => 0) 1 1 1) closedInTime := by
  have hsome : (run step (new (fun _ => 0) 1 1 1) closedInTime).isSome = true := by decide
  obtain ⟨s, hs⟩ := Option.isSome_iff_exists.mp hsome
  exact ⟨hsome, (never_stranded_iff (fun _ => 0) 1 1 1 closedInTime s hs).mp (by decide)⟩

/-- A call of `WaitTillSourceIdeal` behind the end of the worker, the ring not empty. -/
example :
    (run step (new (fun _ => 0) 4 1 1)
      [.WriteBytes [1, 2], .lockWrite 0, .writer, .writer, .worker, .worker, .worker, .worker, .worker,
        .worker, .worker, .source (.error (.exceptionWithString "the source failed")), .worker,
        .WaitTillSourceIdeal, .waiter 0]).any (fun s => s.WaiterStuck ∧ s.worker = .ended) = true := by
  decide

/-- The worker ends on the source's exception, and the writer waits for good. -/
theorem failed_worker_strands :
    ¬ ∀ (fresh : Mem UInt8) (bufferSize maxPkgSize minPkgSize : Nat) (as : List Action)
      (s : AsyncWriter), run step (new fresh bufferSize maxPkgSize minPkgSize) as = some s →
        ¬ s.Stranded := by
  intro h
  have hend : (run step (new (fun _ => 0) 1 1 1) (failing ++ [.worker])).any
      (fun s => s.Stranded) = true := by decide
  obtain ⟨s, hs, hstranded⟩ := run_of_any hend
  exact h (fun _ => 0) 1 1 1 _ s hs hstranded

end AsyncWriter

end TiraRdp
