import TiraRdp.Media.Pipe

/-!
# Stopping a source and its sink

A source, its pipe and a sink as a system: the worker of `IRdpSource` (`projector/IRdpSource.cpp`
in the `Workloop` of its `TcpChannel`), the thread of a sink (`D2DRender.cpp:20-46`, to the letter
the same in `DeviceRedirecr` and `AudioPlayback`) in the loop of `Component.cpp:13-45`, and a thread
that stops the source and then the sink. An item is the `m_bufferSize` of its `Stream`; the wake-up
item of `Stop` is a default `Stream`, of size 1. Nothing pauses a component.

The sink's handler is called on an item longer than one byte, and may throw; the sink's thread then
ends. `Stop` of a sink clears `m_IsAlive` before its `Push`, and `Process` does not `Pop` once it
has read `m_IsAlive` as false. Ghost field: the number of items popped.

`Stuck`: a `Push` is in its wait on a full pipe, and no continuation of the run pops anything.

Result: a run goes through no stuck state iff the source never enters `Push` on a full pipe whose
sink has ended, the sink never throws while the source is in `Push` on a full pipe, and `m_IsAlive`
is cleared on a full pipe only while the sink is in `Pop` (`never_stuck_iff`).
-/

namespace TiraRdp

open Lib.Lts

/-- Where the worker of the source is. -/
inductive SourcePc where
  /-- in `CanLoopContinue` -/
  | check
  | reading
  /-- in `OnDataReceived`, outside `Push` -/
  | delivering
  | pushing (m_bufferSize : Nat)
  | ended
  deriving Repr, DecidableEq

/-- Where the thread of the sink is. -/
inductive SinkPc where
  | canLoop
  /-- in `Process`, about to read `m_IsAlive` -/
  | test
  | popping
  | processing (m_bufferSize : Nat)
  | ended
  deriving Repr, DecidableEq

/-- Where the thread that stops them is. -/
inductive TeardownPc where
  | running
  /-- in `Stop` of the source, which joins its worker -/
  | sourceStop
  /-- about to call `Stop` of the sink -/
  | sinkStop
  /-- in the `Push` of the wake-up item -/
  | pushing
  /-- about to call `Component::Stop` -/
  | componentStop
  | join
  | done
  deriving Repr, DecidableEq

namespace TeardownPc

/-- Before `Stop` of the sink has cleared `m_IsAlive`. -/
def beforeClear : TeardownPc → Bool
  | .running => true
  | .sourceStop => true
  | .sinkStop => true
  | _ => false

/-- Before `Stop` of the source has joined its worker. -/
def beforeJoined : TeardownPc → Bool
  | .running => true
  | .sourceStop => true
  | _ => false

/-- Behind the `_cancelled = true` of `Component::Stop`. -/
def afterCancel : TeardownPc → Bool
  | .join => true
  | .done => true
  | _ => false

end TeardownPc

structure SinkTeardown where
  pipe : Pipe Nat
  source : SourcePc
  sink : SinkPc
  teardown : TeardownPc
  /-- `m_status` of the channel was set to `Status_Stopped` -/
  sourceStopped : Bool
  m_IsAlive : Bool
  /-- of the sink's component -/
  _cancelled : Bool
  popped : Nat

namespace SinkTeardown

/-- Source and sink started, over a new pipe (`ISource.cpp:11`). -/
def initial : SinkTeardown where
  pipe := .new 4
  source := .check
  sink := .canLoop
  teardown := .running
  sourceStopped := false
  m_IsAlive := true
  _cancelled := false
  popped := 0

inductive Action where
  | sourceChecks
  | sourceReads
  /-- the worker ends by an exception -/
  | sourceFails
  | sourceEnters (m_bufferSize : Nat)
  | sourcePushes
  | sourceDone
  | sinkLoops
  | sinkTests
  | sinkPops
  | sinkProcessed
  | sinkThrows
  | stopSource
  | sourceJoined
  /-- `Stop` of the sink clears `m_IsAlive` and enters `Push` -/
  | clear
  | wakes
  | cancel
  | sinkJoined
  deriving Repr, DecidableEq

def step (s : SinkTeardown) : Action → Option SinkTeardown
  | .sourceChecks =>
    if s.source = .check then
      some { s with source := if s.sourceStopped then .ended else .reading }
    else none
  | .sourceReads => if s.source = .reading then some { s with source := .delivering } else none
  | .sourceFails =>
    if s.source = .reading ∨ s.source = .delivering then some { s with source := .ended } else none
  | .sourceEnters m_bufferSize =>
    if s.source = .delivering then some { s with source := .pushing m_bufferSize } else none
  | .sourcePushes =>
    match s.source with
    | .pushing m_bufferSize =>
      if s.pipe.mayPush then
        some { s with pipe := s.pipe.push m_bufferSize, source := .delivering }
      else none
    | _ => none
  | .sourceDone => if s.source = .delivering then some { s with source := .check } else none
  | .sinkLoops =>
    if s.sink = .canLoop then some { s with sink := if s._cancelled then .ended else .test }
    else none
  | .sinkTests =>
    if s.sink = .test then some { s with sink := if s.m_IsAlive then .popping else .canLoop }
    else none
  | .sinkPops =>
    if s.sink = .popping ∧ s.pipe.mayPop then
      match s.pipe.pop with
      | none => none
      | some (m_bufferSize, pipe) =>
        some { s with pipe := pipe, sink := .processing m_bufferSize, popped := s.popped + 1 }
    else none
  | .sinkProcessed =>
    match s.sink with
    | .processing _ => some { s with sink := .canLoop }
    | _ => none
  | .sinkThrows =>
    match s.sink with
    | .processing m_bufferSize => if 1 < m_bufferSize then some { s with sink := .ended } else none
    | _ => none
  | .stopSource =>
    if s.teardown = .running then some { s with teardown := .sourceStop, sourceStopped := true }
    else none
  | .sourceJoined =>
    if s.teardown = .sourceStop ∧ s.source = .ended then some { s with teardown := .sinkStop }
    else none
  | .clear =>
    if s.teardown = .sinkStop then some { s with teardown := .pushing, m_IsAlive := false }
    else none
  | .wakes =>
    if s.teardown = .pushing ∧ s.pipe.mayPush then
      some { s with pipe := s.pipe.push 1, teardown := .componentStop }
    else none
  | .cancel =>
    if s.teardown = .componentStop then some { s with teardown := .join, _cancelled := true }
    else none
  | .sinkJoined =>
    if s.teardown = .join ∧ s.sink = .ended then some { s with teardown := .done } else none

/-- The source, or `Stop` of the sink, is in `Push`. -/
def InPush (s : SinkTeardown) : Prop := (∃ n, s.source = .pushing n) ∨ s.teardown = .pushing

/-- A `Push` is in its wait, which cannot end now, nor later. -/
def Stuck (s : SinkTeardown) : Prop :=
  s.InPush ∧ s.pipe.mayPush = false ∧ ∀ as t, run step s as = some t → t.popped = s.popped

/-- The steps that let no `Push` stick. -/
def FreesPush (s : SinkTeardown) : Action → Prop
  | .sourceEnters _ => s.pipe.mayPush = false → s.sink ≠ .ended
  | .sinkThrows => s.pipe.mayPush = false → ∀ n, s.source ≠ .pushing n
  | .clear => s.pipe.mayPush = false → s.sink = .popping
  | _ => True

instance (pc : SourcePc) : Decidable (∀ n, pc ≠ .pushing n) :=
  match pc with
  | .pushing n => .isFalse fun h => h n rfl
  | .check | .reading | .delivering | .ended => .isTrue nofun

instance (s : SinkTeardown) : DecidablePred s.FreesPush
  | .sourceEnters _ => inferInstanceAs (Decidable (_ → ¬ _))
  | .sinkThrows => inferInstanceAs (Decidable (_ → ∀ n, _ ≠ SourcePc.pushing n))
  | .clear => inferInstanceAs (Decidable (_ → _))
  | .sourceChecks | .sourceReads | .sourceFails | .sourcePushes | .sourceDone | .sinkLoops
  | .sinkTests | .sinkPops | .sinkProcessed | .stopSource | .sourceJoined | .wakes | .cancel
  | .sinkJoined => .isTrue trivial

/-! ## What a step can be -/

inductive Moves (s : SinkTeardown) : Action → SinkTeardown → Prop
  | sourceStops (hpc : s.source = .check) (hstop : s.sourceStopped = true) :
    Moves s .sourceChecks { s with source := .ended }
  | sourceContinues (hpc : s.source = .check) (hstop : s.sourceStopped = false) :
    Moves s .sourceChecks { s with source := .reading }
  | sourceReads (hpc : s.source = .reading) : Moves s .sourceReads { s with source := .delivering }
  | sourceFails (hpc : s.source = .reading ∨ s.source = .delivering) :
    Moves s .sourceFails { s with source := .ended }
  | sourceEnters (n : Nat) (hpc : s.source = .delivering) :
    Moves s (.sourceEnters n) { s with source := .pushing n }
  | sourcePushes (n : Nat) (hpc : s.source = .pushing n) (hmay : s.pipe.mayPush = true) :
    Moves s .sourcePushes { s with pipe := s.pipe.push n, source := .delivering }
  | sourceDone (hpc : s.source = .delivering) : Moves s .sourceDone { s with source := .check }
  | sinkEnds (hpc : s.sink = .canLoop) (hc : s._cancelled = true) :
    Moves s .sinkLoops { s with sink := .ended }
  | sinkLoops (hpc : s.sink = .canLoop) (hc : s._cancelled = false) :
    Moves s .sinkLoops { s with sink := .test }
  | sinkAlive (hpc : s.sink = .test) (ha : s.m_IsAlive = true) :
    Moves s .sinkTests { s with sink := .popping }
  | sinkDead (hpc : s.sink = .test) (ha : s.m_IsAlive = false) :
    Moves s .sinkTests { s with sink := .canLoop }
  | sinkPops (n : Nat) (pipe : Pipe Nat) (hpc : s.sink = .popping)
      (hpop : s.pipe.pop = some (n, pipe)) :
    Moves s .sinkPops { s with pipe := pipe, sink := .processing n, popped := s.popped + 1 }
  | sinkProcessed (n : Nat) (hpc : s.sink = .processing n) :
    Moves s .sinkProcessed { s with sink := .canLoop }
  | sinkThrows (n : Nat) (hpc : s.sink = .processing n) :
    Moves s .sinkThrows { s with sink := .ended }
  | stopSource (hpc : s.teardown = .running) :
    Moves s .stopSource { s with teardown := .sourceStop, sourceStopped := true }
  | sourceJoined (hpc : s.teardown = .sourceStop) (hended : s.source = .ended) :
    Moves s .sourceJoined { s with teardown := .sinkStop }
  | clear (hpc : s.teardown = .sinkStop) :
    Moves s .clear { s with teardown := .pushing, m_IsAlive := false }
  | wakes (hpc : s.teardown = .pushing) (hmay : s.pipe.mayPush = true) :
    Moves s .wakes { s with pipe := s.pipe.push 1, teardown := .componentStop }
  | cancel (hpc : s.teardown = .componentStop) :
    Moves s .cancel { s with teardown := .join, _cancelled := true }
  | sinkJoined (hpc : s.teardown = .join) (hended : s.sink = .ended) :
    Moves s .sinkJoined { s with teardown := .done }

theorem step_moves {s s' : SinkTeardown} {a : Action} (hs : step s a = some s') : Moves s a s' := by
  unfold step at hs
  cases a with
  | sourceChecks =>
    simp only [Option.ite_none_right_eq_some, Option.some.injEq] at hs
    obtain ⟨hpc, hs⟩ := hs
    by_cases hstop : s.sourceStopped = true
    · rw [if_pos hstop] at hs
      exact hs ▸ .sourceStops hpc hstop
    · rw [if_neg hstop] at hs
      exact hs ▸ .sourceContinues hpc (by simpa using hstop)
  | sinkLoops =>
    simp only [Option.ite_none_right_eq_some, Option.some.injEq] at hs
    obtain ⟨hpc, hs⟩ := hs
    by_cases hc : s._cancelled = true
    · rw [if_pos hc] at hs
      exact hs ▸ .sinkEnds hpc hc
    · rw [if_neg hc] at hs
      exact hs ▸ .sinkLoops hpc (by simpa using hc)
  | sinkTests =>
    simp only [Option.ite_none_right_eq_some, Option.some.injEq] at hs
    obtain ⟨hpc, hs⟩ := hs
    by_cases ha : s.m_IsAlive = true
    · rw [if_pos ha] at hs
      exact hs ▸ .sinkAlive hpc ha
    · rw [if_neg ha] at hs
      exact hs ▸ .sinkDead hpc (by simpa using ha)
  | sinkPops =>
    simp only [Option.ite_none_right_eq_some] at hs
    obtain ⟨⟨hpc, -⟩, hs⟩ := hs
    cases hpop : s.pipe.pop with
    | none => simp [hpop] at hs
    | some r =>
      obtain ⟨n, pipe⟩ := r
      simp only [hpop, Option.some.injEq] at hs
      exact hs ▸ .sinkPops n pipe hpc hpop
  | sourcePushes =>
    cases hpc : s.source with
    | pushing n =>
      simp only [hpc, Option.ite_none_right_eq_some, Option.some.injEq] at hs
      exact hs.2 ▸ .sourcePushes n hpc hs.1
    | _ => simp [hpc] at hs
  | sinkProcessed =>
    cases hpc : s.sink with
    | processing n =>
      simp only [hpc, Option.some.injEq] at hs
      exact hs ▸ .sinkProcessed n hpc
    | _ => simp [hpc] at hs
  | sinkThrows =>
    cases hpc : s.sink with
    | processing n =>
      simp only [hpc, Option.ite_none_right_eq_some, Option.some.injEq] at hs
      exact hs.2 ▸ .sinkThrows n hpc
    | _ => simp [hpc] at hs
  | sourceReads =>
    simp only [Option.ite_none_right_eq_some, Option.some.injEq] at hs
    exact hs.2 ▸ .sourceReads hs.1
  | sourceFails =>
    simp only [Option.ite_none_right_eq_some, Option.some.injEq] at hs
    exact hs.2 ▸ .sourceFails hs.1
  | sourceEnters n =>
    simp only [Option.ite_none_right_eq_some, Option.some.injEq] at hs
    exact hs.2 ▸ .sourceEnters n hs.1
  | sourceDone =>
    simp only [Option.ite_none_right_eq_some, Option.some.injEq] at hs
    exact hs.2 ▸ .sourceDone hs.1
  | stopSource =>
    simp only [Option.ite_none_right_eq_some, Option.some.injEq] at hs
    exact hs.2 ▸ .stopSource hs.1
  | sourceJoined =>
    simp only [Option.ite_none_right_eq_some, Option.some.injEq] at hs
    exact hs.2 ▸ .sourceJoined hs.1.1 hs.1.2
  | clear =>
    simp only [Option.ite_none_right_eq_some, Option.some.injEq] at hs
    exact hs.2 ▸ .clear hs.1
  | wakes =>
    simp only [Option.ite_none_right_eq_some, Option.some.injEq] at hs
    exact hs.2 ▸ .wakes hs.1.1 hs.1.2
  | cancel =>
    simp only [Option.ite_none_right_eq_some, Option.some.injEq] at hs
    exact hs.2 ▸ .cancel hs.1
  | sinkJoined =>
    simp only [Option.ite_none_right_eq_some, Option.some.injEq] at hs
    exact hs.2 ▸ .sinkJoined hs.1.1 hs.1.2

/-! ## What holds in every state -/

/-- The fields agree with the phase of the teardown, and the pipe is one of four that nobody
cancels. -/
structure Ordered (s : SinkTeardown) : Prop where
  size : s.pipe._size = 4
  notCancelled : s.pipe._cancelled = false
  bounded : s.pipe._queue.length ≤ 4
  alive : s.m_IsAlive = s.teardown.beforeClear
  ended : s.teardown.beforeJoined = false → s.source = .ended
  cancelled : s._cancelled = s.teardown.afterCancel

variable {s s' : SinkTeardown} {a : Action}

theorem Ordered.initial : Ordered initial := by
  constructor <;> decide

theorem Ordered.not_full_length (h : Ordered s) (hmay : s.pipe.mayPush = true) :
    s.pipe._queue.length < 4 := by
  unfold Pipe.mayPush at hmay
  simpa [h.notCancelled, h.size] using hmay

theorem Ordered.full_length (h : Ordered s) (hmay : s.pipe.mayPush = false) :
    s.pipe._queue.length = 4 := by
  unfold Pipe.mayPush at hmay
  simp only [h.notCancelled, h.size, Bool.false_or, decide_eq_false_iff_not, Nat.not_lt] at hmay
  exact Nat.le_antisymm h.bounded hmay

theorem Ordered.of_source (h : Ordered s) (hlive : s.source ≠ .ended) :
    s.teardown.beforeJoined = true := by
  cases hb : s.teardown.beforeJoined with
  | true => rfl
  | false => exact absurd (h.ended hb) hlive

/-- A step of a source that has not ended. -/
theorem Ordered.source_moves (h : Ordered s) (hlive : s.source ≠ .ended) (pc : SourcePc) :
    Ordered { s with source := pc } := by
  have hb := h.of_source hlive
  exact ⟨h.size, h.notCancelled, h.bounded, h.alive, by simp [hb], h.cancelled⟩

theorem Ordered.step (h : Ordered s) (hs : step s a = some s') : Ordered s' := by
  obtain ⟨hsize, hnc, hbounded, halive, hended, hcancelled⟩ := id h
  cases step_moves hs with
  | sourcePushes n hpc hmay =>
    have hb := h.of_source (by simp [hpc])
    refine ⟨hsize, hnc, ?_, halive, by simp [hb], hcancelled⟩
    rw [Pipe.push, List.length_append, List.length_singleton]
    exact h.not_full_length hmay
  | wakes hpc hmay =>
    rw [hpc] at halive hended hcancelled
    refine ⟨hsize, hnc, ?_, halive, hended, hcancelled⟩
    rw [Pipe.push, List.length_append, List.length_singleton]
    exact h.not_full_length hmay
  | sinkPops n pipe hpc hpop =>
    obtain ⟨hqueue, hc, hs⟩ := Pipe.pop_eq hpop
    refine ⟨hs.trans hsize, hc.trans hnc, ?_, halive, hended, hcancelled⟩
    rw [hqueue, List.length_cons] at hbounded
    exact Nat.le_of_succ_le hbounded
  | sourceStops => exact ⟨hsize, hnc, hbounded, halive, fun _ => rfl, hcancelled⟩
  | sourceFails => exact ⟨hsize, hnc, hbounded, halive, fun _ => rfl, hcancelled⟩
  | sourceContinues hpc => exact h.source_moves (by simp [hpc]) _
  | sourceReads hpc => exact h.source_moves (by simp [hpc]) _
  | sourceEnters n hpc => exact h.source_moves (by simp [hpc]) _
  | sourceDone hpc => exact h.source_moves (by simp [hpc]) _
  | stopSource hpc =>
    rw [hpc] at halive hcancelled
    exact ⟨hsize, hnc, hbounded, halive, fun h => Bool.noConfusion h, hcancelled⟩
  | sourceJoined hpc hjoined =>
    rw [hpc] at halive hcancelled
    exact ⟨hsize, hnc, hbounded, halive, fun _ => hjoined, hcancelled⟩
  | clear hpc =>
    rw [hpc] at hended hcancelled
    exact ⟨hsize, hnc, hbounded, rfl, hended, hcancelled⟩
  | cancel hpc =>
    rw [hpc] at halive hended
    exact ⟨hsize, hnc, hbounded, halive, hended, rfl⟩
  | sinkJoined hpc =>
    rw [hpc] at halive hended hcancelled
    exact ⟨hsize, hnc, hbounded, halive, hended, hcancelled⟩
  | _ => exact ⟨hsize, hnc, hbounded, halive, hended, hcancelled⟩

/-! ## Who still pops -/

/-- The sink has ended, or it will find `m_IsAlive` false before it comes to `Pop` again. -/
def SinkDone (s : SinkTeardown) : Prop :=
  s.sink = .ended ∨ (s.m_IsAlive = false ∧ s.sink ≠ .popping)

/-- A sink that is done pops nothing, and stays so. -/
theorem SinkDone.step (h : s.SinkDone) (hs : step s a = some s') :
    s'.SinkDone ∧ s'.popped = s.popped := by
  rcases h with hended | ⟨halive, hpc⟩
  · cases step_moves hs with
    | sinkEnds h => simp [hended] at h
    | sinkLoops h => simp [hended] at h
    | sinkAlive h => simp [hended] at h
    | sinkDead h => simp [hended] at h
    | sinkPops _ _ h => simp [hended] at h
    | sinkProcessed _ h => simp [hended] at h
    | sinkThrows _ h => simp [hended] at h
    | _ => exact ⟨.inl hended, rfl⟩
  · cases step_moves hs with
    | sinkEnds => exact ⟨.inl rfl, rfl⟩
    | sinkThrows => exact ⟨.inl rfl, rfl⟩
    | sinkAlive _ ha => simp [halive] at ha
    | sinkPops _ _ h => exact absurd h hpc
    | clear => exact ⟨.inr ⟨rfl, hpc⟩, rfl⟩
    | sinkLoops => exact ⟨.inr ⟨halive, nofun⟩, rfl⟩
    | sinkDead => exact ⟨.inr ⟨halive, nofun⟩, rfl⟩
    | sinkProcessed => exact ⟨.inr ⟨halive, nofun⟩, rfl⟩
    | _ => exact ⟨.inr ⟨halive, hpc⟩, rfl⟩

theorem popped_of_sinkDone (h : s.SinkDone) (as : List Action) (hrun : run step s as = some s') :
    s'.popped = s.popped := by
  have hinv : s'.SinkDone ∧ s'.popped = s.popped := by
    refine run_invariant_all (I := fun u => u.SinkDone ∧ u.popped = s.popped) ?_ ⟨h, rfl⟩ hrun
    rintro u a v ⟨hdone, hpopped⟩ hs
    exact ⟨(hdone.step hs).1, (hdone.step hs).2.trans hpopped⟩
  exact hinv.2

/-- A sink past its check of `m_IsAlive` pops an item of the pipe. -/
theorem pops_of_popping (hpc : s.sink = .popping) (hitem : s.pipe._queue ≠ []) :
    ∃ t, step s .sinkPops = some t ∧ t.popped = s.popped + 1 := by
  have hmay : s.pipe.mayPop = true := by
    unfold Pipe.mayPop
    cases hq : s.pipe._queue with
    | nil => exact absurd hq hitem
    | cons n queue => simp
  cases hpop : s.pipe.pop with
  | none => exact absurd (Pipe.pop_eq_none.mp hpop) hitem
  | some r =>
    refine ⟨{ s with pipe := r.2, sink := .processing r.1, popped := s.popped + 1 }, ?_, rfl⟩
    simp only [SinkTeardown.step, hpc, hmay, hpop, and_self, if_true]

/-- Before `m_IsAlive` is cleared, the sink comes to `Pop` from wherever it is. -/
theorem pops_of_alive (h : Ordered s) (hlive : s.sink ≠ .ended) (halive : s.m_IsAlive = true)
    (hitem : s.pipe._queue ≠ []) : ∃ as t, run step s as = some t ∧ t.popped = s.popped + 1 := by
  have hnc : s._cancelled = false := by
    rw [h.alive] at halive
    rw [h.cancelled]
    cases hpc : s.teardown with
    | join => simp [hpc, TeardownPc.beforeClear] at halive
    | done => simp [hpc, TeardownPc.beforeClear] at halive
    | _ => rfl
  have htest (u : SinkTeardown) (hpc : u.sink = .test) (hu : u.m_IsAlive = true)
      (hqueue : u.pipe._queue ≠ []) : ∃ as t, run step u as = some t ∧ t.popped = u.popped + 1 := by
    obtain ⟨t, ht, hpopped⟩ := pops_of_popping (s := { u with sink := .popping }) rfl hqueue
    refine ⟨[.sinkTests, .sinkPops], t, run_cons.mpr ⟨_, ?_, run_cons.mpr ⟨t, ht, rfl⟩⟩, hpopped⟩
    simp only [SinkTeardown.step, hpc, hu, if_true]
  have hloop (u : SinkTeardown) (hpc : u.sink = .canLoop) (hu : u.m_IsAlive = true)
      (hc : u._cancelled = false) (hqueue : u.pipe._queue ≠ []) :
      ∃ as t, run step u as = some t ∧ t.popped = u.popped + 1 := by
    obtain ⟨as, t, ht, hpopped⟩ := htest { u with sink := .test } rfl hu hqueue
    refine ⟨.sinkLoops :: as, t, run_cons.mpr ⟨_, ?_, ht⟩, hpopped⟩
    simp only [SinkTeardown.step, hpc, hc, if_true, Bool.false_eq_true, if_false]
  cases hpc : s.sink with
  | canLoop => exact hloop s hpc halive hnc hitem
  | test => exact htest s hpc halive hitem
  | popping =>
    obtain ⟨t, ht, hpopped⟩ := pops_of_popping hpc hitem
    exact ⟨[.sinkPops], t, run_cons.mpr ⟨t, ht, rfl⟩, hpopped⟩
  | processing n =>
    obtain ⟨as, t, ht, hpopped⟩ := hloop { s with sink := .canLoop } rfl halive hnc hitem
    refine ⟨.sinkProcessed :: as, t, run_cons.mpr ⟨_, ?_, ht⟩, hpopped⟩
    simp only [SinkTeardown.step, hpc]
  | ended => exact absurd hpc hlive

/-- A `Push` in its wait on a full pipe whose sink is done. -/
structure Jammed (s : SinkTeardown) : Prop where
  inPush : s.InPush
  full : s.pipe.mayPush = false
  done : s.SinkDone

/-- **Stuck, read off the state.** -/
theorem stuck_iff_jammed (h : Ordered s) : s.Stuck ↔ s.Jammed := by
  constructor
  · rintro ⟨hin, hfull, hnever⟩
    refine ⟨hin, hfull, ?_⟩
    have hitem : s.pipe._queue ≠ [] := by
      intro hnil
      have hlength := h.full_length hfull
      rw [hnil] at hlength
      cases hlength
    by_contra hdone
    have hpops : ∃ as t, run step s as = some t ∧ t.popped = s.popped + 1 := by
      by_cases hpc : s.sink = .popping
      · obtain ⟨t, ht, hpopped⟩ := pops_of_popping hpc hitem
        exact ⟨[.sinkPops], t, run_cons.mpr ⟨t, ht, rfl⟩, hpopped⟩
      · refine pops_of_alive h (fun hended => hdone (.inl hended)) ?_ hitem
        cases ha : s.m_IsAlive with
        | true => rfl
        | false => exact absurd (.inr ⟨ha, hpc⟩) hdone
    obtain ⟨as, t, ht, hpopped⟩ := hpops
    have hsame := hnever as t ht
    omega
  · rintro ⟨hin, hfull, hdone⟩
    exact ⟨hin, hfull, fun as t ht => popped_of_sinkDone hdone as ht⟩

/-! ## Runs without a stuck state -/

theorem alive_of_source (h : Ordered s) (hlive : s.source ≠ .ended) : s.m_IsAlive = true := by
  have hb := h.of_source hlive
  rw [h.alive]
  cases hpc : s.teardown with
  | running => rfl
  | sourceStop => rfl
  | _ => simp [hpc, TeardownPc.beforeJoined] at hb

/-- A sink that is done while the source has not ended has ended itself. -/
theorem ended_of_done (h : Ordered s) (hlive : s.source ≠ .ended) (hdone : s.SinkDone) :
    s.sink = .ended := by
  rcases hdone with hended | ⟨hdead, -⟩
  · exact hended
  · rw [alive_of_source h hlive] at hdead
    cases hdead

theorem not_inPush_of_source (h : Ordered s) (hlive : s.source ≠ .ended)
    (hpc : ∀ n, s.source ≠ .pushing n) : ¬ s.InPush := by
  rintro (⟨n, hn⟩ | hteardown)
  · exact hpc n hn
  · have hb := h.of_source hlive
    rw [hteardown] at hb
    cases hb

theorem not_inPush_of_joined (h : Ordered s) (hb : s.teardown.beforeJoined = false)
    (hpc : s.teardown ≠ .pushing) : ¬ s.InPush := by
  rintro (⟨n, hn⟩ | hteardown)
  · rw [h.ended hb] at hn
    cases hn
  · exact hpc hteardown

/-- A step that frees the pushes jams nothing. -/
theorem not_jammed_step (h : Ordered s) (hfree : ¬ s.Jammed) (hok : s.FreesPush a)
    (hs : step s a = some s') : ¬ s'.Jammed := by
  have h' := h.step hs
  rintro ⟨hin, hfull, hdone⟩
  cases step_moves hs with
  | sourceStops hpc =>
    refine not_inPush_of_source h (by simp [hpc]) (by simp [hpc]) ?_
    exact hin.imp_left fun ⟨n, hn⟩ => nomatch hn
  | sourceContinues hpc => exact not_inPush_of_source h' nofun nofun hin
  | sourceReads hpc => exact not_inPush_of_source h' nofun nofun hin
  | sourceFails hpc =>
    refine hfree ⟨?_, hfull, hdone⟩
    exact hin.imp_left fun ⟨n, hn⟩ => nomatch hn
  | sourceEnters n hpc => exact hok hfull (ended_of_done h (by simp [hpc]) hdone)
  | sourcePushes n hpc => exact not_inPush_of_source h' nofun nofun hin
  | sourceDone hpc => exact not_inPush_of_source h' nofun nofun hin
  | sinkEnds hpc hc =>
    rw [h.cancelled] at hc
    cases hteardown : s.teardown with
    | join => exact not_inPush_of_joined h (by rw [hteardown]; rfl) (by simp [hteardown]) hin
    | done => exact not_inPush_of_joined h (by rw [hteardown]; rfl) (by simp [hteardown]) hin
    | _ => simp [hteardown, TeardownPc.afterCancel] at hc
  | sinkLoops hpc =>
    rcases hdone with hended | ⟨hdead, -⟩
    · cases hended
    · exact hfree ⟨hin, hfull, .inr ⟨hdead, by simp [hpc]⟩⟩
  | sinkAlive hpc ha =>
    rcases hdone with hended | ⟨hdead, -⟩
    · cases hended
    · exact Bool.false_ne_true (hdead.symm.trans ha)
  | sinkDead hpc ha => exact hfree ⟨hin, hfull, .inr ⟨ha, by simp [hpc]⟩⟩
  | sinkPops n pipe hpc hpop =>
    -- the pop has made room
    have hlength := h'.full_length hfull
    have hbounded := h.bounded
    rw [(Pipe.pop_eq hpop).1, List.length_cons] at hbounded
    exact absurd hlength (Nat.ne_of_lt hbounded)
  | sinkProcessed n hpc =>
    rcases hdone with hended | ⟨hdead, -⟩
    · cases hended
    · exact hfree ⟨hin, hfull, .inr ⟨hdead, by simp [hpc]⟩⟩
  | sinkThrows n hpc =>
    rcases id hin with ⟨m, hm⟩ | hteardown
    · exact hok hfull m hm
    · have hdead : s.m_IsAlive = false := by
        rw [h.alive, hteardown]
        rfl
      exact hfree ⟨hin, hfull, .inr ⟨hdead, by simp [hpc]⟩⟩
  | stopSource hpc =>
    rcases hin with ⟨m, hm⟩ | hteardown
    · exact hfree ⟨.inl ⟨m, hm⟩, hfull, hdone⟩
    · cases hteardown
  | sourceJoined hpc hended =>
    rcases hin with ⟨m, hm⟩ | hteardown
    · exact hfree ⟨.inl ⟨m, hm⟩, hfull, hdone⟩
    · cases hteardown
  | clear hpc =>
    have hpopping := hok hfull
    rcases hdone with hended | ⟨-, hne⟩
    · rw [hpopping] at hended
      cases hended
    · exact hne hpopping
  | wakes hpc => exact not_inPush_of_joined h' rfl nofun hin
  | cancel hpc => exact not_inPush_of_joined h' rfl nofun hin
  | sinkJoined hpc => exact not_inPush_of_joined h' rfl nofun hin

/-- A step that does not, jams one. -/
theorem jammed_of_not_freesPush (hok : ¬ s.FreesPush a) (hs : step s a = some s') :
    s'.Jammed := by
  cases step_moves hs with
  | sourceEnters n hpc =>
    rw [FreesPush, Classical.not_imp, not_not] at hok
    exact ⟨.inl ⟨n, rfl⟩, hok.1, .inl hok.2⟩
  | sinkThrows n hpc =>
    simp only [FreesPush, Classical.not_forall, not_not] at hok
    obtain ⟨hfull, m, hm⟩ := hok
    exact ⟨.inl ⟨m, hm⟩, hfull, .inl rfl⟩
  | clear hpc =>
    rw [FreesPush, Classical.not_imp] at hok
    exact ⟨.inr rfl, hok.1, .inr ⟨rfl, hok.2⟩⟩
  | _ => exact absurd trivial hok

/-- **No push sticks**, in any state of a run, exactly when the source enters `Push` on a full pipe
only while its sink lives, the sink throws only while no `Push` of the source is in its wait, and
`m_IsAlive` is cleared on a full pipe only while the sink is in `Pop`. -/
theorem never_stuck_iff (as : List Action) (s : SinkTeardown)
    (hrun : run step initial as = some s) :
    Meets step FreesPush initial as ↔ Along step (fun s => ¬ s.Stuck) initial as := by
  refine meets_iff_along (I := fun s => Ordered s ∧ ¬ s.Jammed) (p := fun _ => True) ?_ ?_ ?_ ?_
    (fun _ _ => trivial) hrun
  · rintro u ⟨hu, hfree⟩
    rwa [stuck_iff_jammed hu]
  · rintro u a v ⟨hu, hfree⟩ - hok hs
    exact ⟨hu.step hs, not_jammed_step hu hfree hok hs⟩
  · rintro u a v ⟨hu, -⟩ - hok hs
    rw [stuck_iff_jammed (hu.step hs), not_not]
    exact jammed_of_not_freesPush hok hs
  · refine ⟨Ordered.initial, ?_⟩
    rintro ⟨-, hfull, -⟩
    cases hfull

/-- One item is played, then the two are stopped. -/
def playedAndStopped : List Action :=
  [.sourceChecks, .sourceReads, .sourceEnters 8, .sourcePushes, .sourceDone, .sinkLoops, .sinkTests,
    .sinkPops, .sinkProcessed, .sinkLoops, .sinkTests, .stopSource, .sourceChecks,
    .sourceJoined, .clear, .wakes, .cancel, .sinkPops, .sinkProcessed, .sinkLoops, .sinkJoined]

theorem never_stuck_played :
    (run step initial playedAndStopped).isSome = true ∧
      Along step (fun s => ¬ s.Stuck) initial playedAndStopped := by
  have hsome : (run step initial playedAndStopped).isSome = true := by decide
  obtain ⟨s, hs⟩ := Option.isSome_iff_exists.mp hsome
  exact ⟨hsome, (never_stuck_iff playedAndStopped s hs).mp (by decide)⟩

/-- Four items come while the sink is in its handler; the source is stopped, then the sink. -/
def stoppedBusy : List Action :=
  [.sourceChecks, .sourceReads, .sourceEnters 8, .sourcePushes, .sinkLoops, .sinkTests, .sinkPops,
    .sourceEnters 8, .sourcePushes, .sourceEnters 8, .sourcePushes, .sourceEnters 8, .sourcePushes,
    .sourceEnters 8, .sourcePushes, .sourceDone, .stopSource, .sourceChecks, .sourceJoined, .clear]

/-- The wake-up item finds the pipe full, and the sink will not look at the pipe again. -/
theorem busy_sink_stuck :
    ¬ ∀ (as : List Action) (s : SinkTeardown), run step initial as = some s → ¬ s.Stuck := by
  intro h
  have hend : (run step initial stoppedBusy).any (fun s => s.teardown = .pushing ∧
      s.pipe.mayPush = false ∧ s.m_IsAlive = false ∧ s.sink = .processing 8) = true := by decide
  obtain ⟨s, hs, hpushing, hfull, hdead, hbusy⟩ := run_of_any hend
  have hordered : Ordered s := run_invariant_all (fun _ _ _ h hs => h.step hs) Ordered.initial hs
  refine h stoppedBusy s hs ((stuck_iff_jammed hordered).mpr ⟨.inr hpushing, hfull, .inr ⟨hdead, ?_⟩⟩)
  simp [hbusy]

end SinkTeardown

end TiraRdp
