import TiraRdp.Utility.AsyncWriter

/-!
# What `WaitTillSourceIdeal` waits for

`AsyncWriter::WaitTillSourceIdeal` (`AsyncWriter.cpp:59-63`) waits until the ring is empty
(`WaitingBuffer.h:36-49`) and then for the source. Between the end of the worker's critical section
and its call of the source, bytes are in neither: they are in `m_TempBuffer`.

Result: in every run without a cancel whose index sums do not wrap, and in which each wait that
finds the ring empty finds the worker without a block as well, each call of `WaitTillSourceIdeal`
returns with all that was accepted before it delivered (`drained_of_idle`). A wait that goes on
while the block holds a byte accepted before the call may return before the source has it
(`Draining.undrained_of_held`).
-/

namespace TiraRdp

open Lib Lib.Mem Lib.Lts

/-- The number of bytes accepted when the call was made. -/
def WaiterPc.since : WaiterPc → Nat
  | .lock since => since
  | .waiting since => since
  | .source since => since

@[simp] theorem WaiterPc.since_notified (pc : WaiterPc) : pc.notified.since = pc.since := by
  cases pc <;> rfl

/-- Nobody is notified into the source. -/
theorem WaiterPc.notified_eq_source {pc : WaiterPc} {since : Nat}
    (h : .source since = pc.notified) :
    .source since = pc := by
  cases pc with
  | waiting since' => cases h
  | _ => exact h

namespace AsyncWriter

/-- A call of `WaitTillSourceIdeal` that returns finds delivered all that was accepted before it. -/
def ReturnsDrained (s : AsyncWriter) : Action → Prop
  | .waiter i => ∀ since, s.waiters[i]? = some (.source since) →
      s.accepted.take since <+: s.delivered.flatten
  | _ => True

/-- A wait that finds the ring empty finds the worker without a block. -/
def FindsIdle (s : AsyncWriter) : Action → Prop
  | .waiter i => ∀ since, s.waiters[i]? = some (.lock since) → s.m_Buffer.m_DataLen = 0 →
      s.worker.temp = []
  | _ => True

instance (s : AsyncWriter) : DecidablePred s.NoWrap
  | .writer =>
    match hpc : s.writer with
    | .lock buffer =>
      decidable_of_iff (s.m_Buffer.m_End + s.m_Buffer.writeLen buffer.length < 2 ^ 32)
        (by simp [NoWrap, hpc])
    | .idle | .test _ | .waiting _ | .notify _ | .leave _ _ => .isTrue (by simp [NoWrap, hpc])
  | .worker =>
    match hpc : s.worker with
    | .lock r =>
      decidable_of_iff (s.m_Buffer.m_Start + s.m_Buffer.readLen r.len < 2 ^ 32)
        (by simp [NoWrap, hpc])
    | .canLoop | .test _ | .waiting _ | .notifyWrite _ | .notifyWait _ | .leave _ _ | .deliver _
    | .catching _ | .ended => .isTrue (by simp [NoWrap, hpc])
  | .WriteBytes _ | .lockWrite _ | .wakeWriter | .wakeWorker | .source _ | .WaitTillSourceIdeal
  | .waiter _ | .wakeWaiter _ | .Cancel | .canceller _ | .Close | .closer => .isTrue trivial

instance (s : AsyncWriter) : DecidablePred s.FindsIdle
  | .waiter i =>
    match hpc : s.waiters[i]? with
    | some (.lock since) =>
      decidable_of_iff (s.m_Buffer.m_DataLen = 0 → s.worker.temp = []) (by simp [FindsIdle, hpc])
    | some (.source _) | some (.waiting _) | none => .isTrue (by simp [FindsIdle, hpc])
  | .WriteBytes _ | .lockWrite _ | .writer | .wakeWriter | .worker | .wakeWorker | .source _
  | .WaitTillSourceIdeal | .wakeWaiter _ | .Cancel | .canceller _ | .Close | .closer =>
    .isTrue trivial

instance (s : AsyncWriter) : DecidablePred s.ReturnsDrained
  | .waiter i =>
    match hpc : s.waiters[i]? with
    | some (.source since) =>
      decidable_of_iff (s.accepted.take since <+: s.delivered.flatten)
        (by simp [ReturnsDrained, hpc])
    | some (.lock _) | some (.waiting _) | none => .isTrue (by simp [ReturnsDrained, hpc])
  | .WriteBytes _ | .lockWrite _ | .writer | .wakeWriter | .worker | .wakeWorker | .source _
  | .WaitTillSourceIdeal | .wakeWaiter _ | .Cancel | .canceller _ | .Close | .closer =>
    .isTrue trivial

/-- **The invariant**: a call that has found the ring empty, found all it waits for delivered. -/
structure Draining (bufferSize : Nat) (s : AsyncWriter) : Prop extends Flowing bufferSize s where
  called : ∀ pc ∈ s.waiters, pc.since ≤ s.accepted.length
  passed : ∀ since, .source since ∈ s.waiters → since ≤ s.delivered.flatten.length

variable {bufferSize : Nat} {s t : AsyncWriter} {a : Action}

theorem Flowing.accepted_length (h : Flowing bufferSize s) :
    s.delivered.flatten.length + s.worker.temp.length + s.m_Buffer.m_DataLen =
      s.accepted.length := by
  have hcontent : s.m_Buffer.content.length = s.m_Buffer.m_DataLen := ringRead_length _ _ _ _
  rw [← h.stream, List.length_append, List.length_append, hcontent]

/-- What was accepted before a call is delivered once as many bytes are. -/
theorem Flowing.drained_iff (h : Flowing bufferSize s) {since : Nat}
    (hcalled : since ≤ s.accepted.length) :
    s.accepted.take since <+: s.delivered.flatten ↔ since ≤ s.delivered.flatten.length := by
  have hprefix : s.delivered.flatten <+: s.accepted := by
    rw [← h.stream, List.append_assoc]
    exact List.prefix_append _ _
  constructor
  · intro hle
    have hlen := hle.length_le
    rwa [List.length_take_of_le hcalled] at hlen
  · intro hle
    refine List.prefix_of_prefix_length_le (List.take_prefix _ _) hprefix ?_
    rwa [List.length_take_of_le hcalled]

/-- A caller in the list was there before, with the same bytes to wait for, or has just called. -/
theorem Flowing.waiter_moved (h : Flowing bufferSize s) (hm : Moves s a t) {pc : WaiterPc}
    (hpc : pc ∈ t.waiters) :
    (∃ pc' ∈ s.waiters, pc'.since = pc.since) ∨ pc.since = s.accepted.length := by
  cases hm with
  | notifiesWait r hworker =>
    obtain ⟨pc', hmem, rfl⟩ := List.mem_map.mp hpc
    exact .inl ⟨pc', hmem, pc'.since_notified.symm⟩
  | WaitTillSourceIdeal =>
    rcases List.mem_append.mp hpc with hmem | hnew
    · exact .inl ⟨pc, hmem, rfl⟩
    · rw [List.mem_singleton.mp hnew]
      exact .inr rfl
  | passes i since hlock | waiterWaits i since hlock =>
    rcases List.mem_or_eq_of_mem_set hpc with hmem | rfl
    · exact .inl ⟨pc, hmem, rfl⟩
    · exact .inl ⟨_, List.mem_of_getElem? hlock, rfl⟩
  | waitThrows i since hlock | returns i since hlock =>
    exact .inl ⟨pc, List.mem_of_mem_eraseIdx hpc, rfl⟩
  | wakeWaiter i =>
    rcases mem_of_mem_modify hpc with hmem | ⟨pc', hmem, rfl⟩
    · exact .inl ⟨pc, hmem, rfl⟩
    · exact .inl ⟨pc', hmem, pc'.since_notified.symm⟩
  | cancels i op ops hop => exact absurd hop h.no_canceller
  | closes op ops hop => exact absurd hop h.no_closer
  | _ => exact .inl ⟨pc, hpc, rfl⟩

/-- A call comes to the source from the test of the ring, which it found empty. -/
theorem Flowing.source_moved (h : Flowing bufferSize s) (hm : Moves s a t) {since : Nat}
    (hpc : .source since ∈ t.waiters) :
    .source since ∈ s.waiters ∨
      ∃ i, a = .waiter i ∧ s.waiters[i]? = some (.lock since) ∧ s.m_Buffer.m_DataLen = 0 := by
  cases hm with
  | notifiesWait r hworker =>
    obtain ⟨pc', hmem, heq⟩ := List.mem_map.mp hpc
    rw [WaiterPc.notified_eq_source heq.symm]
    exact .inl hmem
  | WaitTillSourceIdeal =>
    rcases List.mem_append.mp hpc with hmem | hnew
    · exact .inl hmem
    · cases List.mem_singleton.mp hnew
  | passes i since' hlock hempty =>
    rcases List.mem_or_eq_of_mem_set hpc with hmem | heq
    · exact .inl hmem
    · cases heq
      exact .inr ⟨i, rfl, hlock, hempty⟩
  | waiterWaits i since' hlock =>
    rcases List.mem_or_eq_of_mem_set hpc with hmem | heq
    · exact .inl hmem
    · cases heq
  | waitThrows i since' hlock | returns i since' hlock => exact .inl (List.mem_of_mem_eraseIdx hpc)
  | wakeWaiter i =>
    rcases mem_of_mem_modify hpc with hmem | ⟨pc', hmem, heq⟩
    · exact .inl hmem
    · rw [WaiterPc.notified_eq_source heq]
      exact .inl hmem
  | cancels i op ops hop => exact absurd hop h.no_canceller
  | closes op ops hop => exact absurd hop h.no_closer
  | _ => exact .inl hpc

theorem Flowing.accepted_grows (h : Flowing bufferSize s) (hm : Moves s a t) :
    s.accepted.length ≤ t.accepted.length := by
  cases hm with
  | stores buffer hpc hroom =>
    exact (List.prefix_append _ _).length_le
  | cancels i op ops hop => exact absurd hop h.no_canceller
  | closes op ops hop => exact absurd hop h.no_closer
  | _ => exact Nat.le_refl _

/-- What is delivered stays delivered. -/
theorem Flowing.delivered_grows (h : Flowing bufferSize s) (hm : Moves s a t) :
    s.delivered.flatten.length ≤ t.delivered.flatten.length := by
  cases hm with
  | delivers r ends hpc =>
    rw [List.flatten_append]
    exact (List.prefix_append _ _).length_le
  | cancels i op ops hop => exact absurd hop h.no_canceller
  | closes op ops hop => exact absurd hop h.no_closer
  | _ => exact Nat.le_refl _

theorem new_draining {fresh : Mem UInt8} {maxPkgSize minPkgSize : Nat} (h0 : 0 < bufferSize)
    (hsize : bufferSize < 2 ^ 32) (hmax : maxPkgSize < 2 ^ 32) :
    Draining bufferSize (new fresh bufferSize maxPkgSize minPkgSize) :=
  { new_flowing h0 hsize hmax with called := nofun, passed := nofun }

/-- **One step** keeps the invariant. -/
theorem Draining.step (h : Draining bufferSize s) (hc : a.isCancel = false) (hw : s.NoWrap a)
    (hidle : s.FindsIdle a) (hs : AsyncWriter.step s a = some t) : Draining bufferSize t := by
  have hm := step_moves hs
  refine { step_flowing h.toFlowing hc hw hs with called := ?_, passed := ?_ }
  · intro pc hpc
    have hgrows := h.accepted_grows hm
    rcases h.waiter_moved hm hpc with ⟨pc', hmem, heq⟩ | heq
    · rw [← heq]
      exact Nat.le_trans (h.called pc' hmem) hgrows
    · rw [heq]
      exact hgrows
  · intro since hpc
    have hgrows := h.delivered_grows hm
    rcases h.source_moved hm hpc with hmem | ⟨i, rfl, hlock, hempty⟩
    · exact Nat.le_trans (h.passed since hmem) hgrows
    · -- neither the ring nor the worker holds anything: all that was accepted is delivered
      have hall := h.accepted_length
      have hcalled : since ≤ s.accepted.length := h.called _ (List.mem_of_getElem? hlock)
      rw [hempty, hidle since hlock hempty, List.length_nil, Nat.add_zero] at hall
      exact Nat.le_trans (hall ▸ hcalled) hgrows

theorem Draining.drained (h : Draining bufferSize s) : s.ReturnsDrained a := by
  cases a with
  | waiter i =>
    intro since hpc
    have hmem : .source since ∈ s.waiters := List.mem_of_getElem? hpc
    exact (h.drained_iff (h.called _ hmem)).mpr (h.passed since hmem)
  | _ => trivial

/-- **`WaitTillSourceIdeal` returns with everything delivered**, at every return of a run without a
cancel in which no index sum wraps and each wait that finds the ring empty finds the worker without
a block. -/
theorem drained_of_idle (fresh : Mem UInt8) {maxPkgSize minPkgSize : Nat} (h0 : 0 < bufferSize)
    (hsize : bufferSize < 2 ^ 32) (hmax : maxPkgSize < 2 ^ 32) {as : List Action}
    (hc : ∀ a ∈ as, a.isCancel = false)
    (hidle : Meets AsyncWriter.step (fun s a => s.NoWrap a ∧ s.FindsIdle a)
      (new fresh bufferSize maxPkgSize minPkgSize) as) :
    Meets AsyncWriter.step ReturnsDrained (new fresh bufferSize maxPkgSize minPkgSize) as :=
  meets_of_kept (fun _ _ _ h hc hok hs => h.step hc hok.1 hok.2 hs) (fun _ _ h => h.drained)
    (new_draining h0 hsize hmax) hc hidle

/-- **What the condition leaves out**: a wait that finds the ring empty while the worker's block
holds a byte accepted before the call goes on to the source, and its return is not drained unless
the worker delivers first. -/
theorem Draining.undrained_of_held (h : Draining bufferSize s) {i since : Nat}
    (hpc : s.waiters[i]? = some (.lock since)) (hempty : s.m_Buffer.m_DataLen = 0)
    (hheld : s.accepted.length < since + s.worker.temp.length)
    (hflag : s.m_Buffer.m_IsCancelWait = false) (hlives : s.terminated = false) :
    ∃ t, AsyncWriter.step s (.waiter i) = some t ∧ ¬ t.ReturnsDrained (.waiter i) := by
  have hcalled : since ≤ s.accepted.length := h.called _ (List.mem_of_getElem? hpc)
  have hall := h.accepted_length
  have hstep : AsyncWriter.step s (.waiter i) = some { s with
      m_Buffer := { s.m_Buffer with m_IsCancelWait := false }
      waiters := s.waiters.set i (.source since) } := by
    simp [AsyncWriter.step, waiterStep, hlives, hpc, hempty, hflag]
  refine ⟨_, hstep, fun hdrained => ?_⟩
  obtain ⟨hlt, -⟩ := List.getElem?_eq_some_iff.mp hpc
  have hprefix := hdrained since (List.getElem?_set_self hlt)
  have hle := (h.drained_iff hcalled).mp hprefix
  omega

/-- One byte; the call waits for the worker to take it, and is notified before the source has it. -/
def flushing : List Action :=
  [.WriteBytes [1], .lockWrite 0, .writer, .writer, .WaitTillSourceIdeal, .waiter 0, .worker, .worker,
    .worker, .worker, .worker, .worker, .worker]

theorem drained_of_idle_flushing :
    let s₀ := new (fun _ => 0) 4 4 1
    let as := flushing ++ [.source (.ok ()), .waiter 0, .waiter 0]
    (∃ t, run AsyncWriter.step s₀ as = some t ∧ t.waiters = [] ∧ t.delivered = [[1]]) ∧
      Meets AsyncWriter.step ReturnsDrained s₀ as := by
  intro s₀ as
  have hc : ∀ a ∈ as, a.isCancel = false := by simp [as, flushing, Action.isCancel]
  have hobs : (run AsyncWriter.step s₀ as).map (fun t => (t.waiters, t.delivered)) =
      some ([], [[1]]) := by decide
  obtain ⟨t, ht, hseen⟩ := Option.map_eq_some_iff.mp hobs
  obtain ⟨hwaiters, hdelivered⟩ := Prod.mk.inj hseen
  refine ⟨⟨t, ht, hwaiters, hdelivered⟩, ?_⟩
  exact drained_of_idle (fun _ => 0) (by decide) (by decide) (by decide) hc (by decide)

/-- The call returns while the worker holds the byte. -/
theorem returns_undrained :
    ¬ ∀ (fresh : Mem UInt8) (bufferSize maxPkgSize minPkgSize : Nat) (as : List Action),
      0 < bufferSize → bufferSize < 2 ^ 32 → maxPkgSize < 2 ^ 32 → (∀ a ∈ as, a.isCancel = false) →
        Meets AsyncWriter.step ReturnsDrained (new fresh bufferSize maxPkgSize minPkgSize) as := by
  intro h
  have hc : ∀ a ∈ flushing ++ [.waiter 0, .waiter 0], a.isCancel = false := by
    simp [flushing, Action.isCancel]
  have hmeets := h (fun _ => 0) 4 4 1 _ (by decide) (by decide) (by decide) hc
  revert hmeets
  decide

end AsyncWriter

end TiraRdp
