import TiraRdp.Lib.Trace
import Mathlib.Logic.Function.Basic

/-!
# `RedirectChannelFactory`: the projector's pipelines

Model of `projector/RedirectChannelFactory.cpp` with what its statements do to the nine members:
`ISource::operator>>` and `ISink::BeLinked` (`common/media`), `Component::Start`, the `Stop` of the
three sinks, which push to their pipe. A setup function is the list of its statements (`Op`), so
that an exception can be raised in front of any of them.

Two things end the process. A null pointer is dereferenced. Or a sink whose thread was started is
replaced or started again: its `std::thread` is destroyed while joinable, which is
`std::terminate`.

Result: what a list of statements and the teardown behind it come to is read off the order of the
statements alone (`Mirrors`, `execAll_cases`, `teardown_safe_iff`).
-/

namespace TiraRdp

open Lib.Trace

inductive Member where
  | m_RDPProjectorPipeline
  | m_D2DRender
  | m_RdpSource
  | m_HIDRedirector
  | m_AudioSource
  | m_AudioPlayback
  | m_RdpDRSource
  | m_DeviceRedirecr
  | m_TouchAndPen
  deriving Repr, DecidableEq

/-- The three sources with the sinks they feed. -/
inductive MediaLine where
  | screen
  | dr
  | audio
  deriving Repr, DecidableEq

def MediaLine.source : MediaLine → Member
  | .screen => .m_RdpSource
  | .dr => .m_RdpDRSource
  | .audio => .m_AudioSource

def MediaLine.sink : MediaLine → Member
  | .screen => .m_D2DRender
  | .dr => .m_DeviceRedirecr
  | .audio => .m_AudioPlayback

instance (p : MediaLine → Prop) [DecidablePred p] : Decidable (∀ l, p l) :=
  decidable_of_iff (p .screen ∧ p .dr ∧ p .audio)
    ⟨fun h l => by cases l <;> simp [h], fun h => ⟨h .screen, h .dr, h .audio⟩⟩

/-- The line whose sink a member is. -/
def Member.line : Member → Option MediaLine
  | .m_D2DRender => some .screen
  | .m_DeviceRedirecr => some .dr
  | .m_AudioPlayback => some .audio
  | _ => none

/-- What a member points to: is its `_in` or `_out` set, is its `_thread`. -/
structure MemberObject where
  linked : Bool
  thread : Bool
  deriving Repr, DecidableEq

/-- What ends the process. -/
inductive ProcessEnd where
  | nullDereference
  | terminate
  deriving Repr, DecidableEq

structure RedirectChannelFactory where
  members : Member → Option MemberObject

/-- A statement of the setup functions. -/
inductive Op where
  | make (m : Member)
  | start (m : Member)
  /-- the three plugin queries and the check of their results -/
  | queryPlugins
  | WaitForConnection
  | SetTcpNoDelay
  | SetRecvBufferSize
  | SetSendBufferSize
  | makeTcpChannel
  /-- the operands of `*source >> *sink` -/
  | operands (l : MediaLine)
  /-- `ISource::operator>>` -/
  | link (l : MediaLine)
  deriving Repr, DecidableEq

namespace RedirectChannelFactory

def InitialRDPProjectorPipeline : List Op :=
  [.make .m_RDPProjectorPipeline, .start .m_RDPProjectorPipeline, .queryPlugins,
    .make .m_D2DRender, .make .m_AudioPlayback, .make .m_DeviceRedirecr]

/-- What every setup function begins with. -/
def acceptChannel : List Op :=
  [.WaitForConnection, .SetTcpNoDelay, .SetRecvBufferSize, .SetSendBufferSize, .makeTcpChannel]

/-- The rest of the setup of a source and its sink. -/
def linkLine (l : MediaLine) : List Op :=
  [.make l.source, .operands l, .link l, .start l.source, .start l.sink]

def SetupScreenPipeline : List Op := acceptChannel ++ linkLine .screen

def SetupHIDPipeline : List Op :=
  acceptChannel ++ [.make .m_HIDRedirector, .start .m_HIDRedirector]

def SetupDrRedirect : List Op := acceptChannel ++ linkLine .dr

def SetupAudioPlaybackRedirect : List Op := acceptChannel ++ linkLine .audio

def SetupTouchAndPenRedirect : List Op := acceptChannel ++ [.make .m_TouchAndPen]

/-- A factory whose members are all unset. -/
def initial : RedirectChannelFactory := ⟨fun _ => none⟩

def set (f : RedirectChannelFactory) (m : Member) (o : Option MemberObject) :
    RedirectChannelFactory :=
  ⟨Function.update f.members m o⟩

def deref (f : RedirectChannelFactory) (m : Member) : Except ProcessEnd MemberObject :=
  match f.members m with
  | none => .error .nullDereference
  | some o => .ok o

/-- What a statement that throws nothing does. -/
def exec (f : RedirectChannelFactory) : Op → Except ProcessEnd RedirectChannelFactory
  | .make m =>
    -- the object that `m` pointed to is destroyed
    if ((f.members m).map (·.thread)).getD false then .error .terminate
    else .ok (f.set m (some ⟨false, false⟩))
  | .start m => do
    let o ← f.deref m
    match m.line with
    | none => .ok f
    | some _ =>
      if o.thread then .error .terminate else .ok (f.set m (some { o with thread := true }))
  | .queryPlugins => do
    let _ ← f.deref .m_RDPProjectorPipeline
    .ok f
  | .operands l => do
    let _ ← f.deref l.source
    let _ ← f.deref l.sink
    .ok f
  | .link l => do
    let source ← f.deref l.source
    let sink ← f.deref l.sink
    .ok ((f.set l.source (some { source with linked := true })).set l.sink
      (some { sink with linked := true }))
  | .WaitForConnection => .ok f
  | .SetTcpNoDelay => .ok f
  | .SetRecvBufferSize => .ok f
  | .SetSendBufferSize => .ok f
  | .makeTcpChannel => .ok f

def execAll (f : RedirectChannelFactory) (ops : List Op) :
    Except ProcessEnd RedirectChannelFactory :=
  ops.foldlM exec f

/-- What `DestoryAllChannel` does with one member: the sinks push to `_in`, `m_TouchAndPen` is
reset. -/
def stop (f : RedirectChannelFactory) (m : Member) : Except ProcessEnd RedirectChannelFactory :=
  match f.members m with
  | none => .ok f
  | some o =>
    if m = .m_TouchAndPen then .ok (f.set m none)
    else if m.line.isSome then
      if o.linked then .ok (f.set m (some { o with thread := false }))
      else .error .nullDereference
    else .ok f

/-- The order in which `DestoryAllChannel` takes the members. -/
def stopOrder : List Member :=
  [.m_HIDRedirector, .m_RdpSource, .m_RDPProjectorPipeline, .m_D2DRender, .m_RdpDRSource,
    .m_DeviceRedirecr, .m_AudioSource, .m_AudioPlayback, .m_TouchAndPen]

def DestoryAllChannel (f : RedirectChannelFactory) : Except ProcessEnd RedirectChannelFactory :=
  stopOrder.foldlM stop f

/-! ## Reading the members off the statements -/

theorem line_eq_some {m : Member} {l : MediaLine} : m.line = some l ↔ m = l.sink := by
  cases m <;> cases l <;> simp [Member.line, MediaLine.sink]

theorem line_sink (l : MediaLine) : l.sink.line = some l := line_eq_some.mpr rfl

theorem source_ne_sink (l l' : MediaLine) : l.source ≠ l'.sink := by
  cases l <;> cases l' <;> simp [MediaLine.source, MediaLine.sink]

theorem sink_inj {l l' : MediaLine} (h : l.sink = l'.sink) : l = l' :=
  Option.some.inj ((line_sink l).symm.trans (h ▸ line_sink l'))

/-- What the statements done say about the members. -/
structure Mirrors (ops : List Op) (f : RedirectChannelFactory) : Prop where
  made : ∀ m, (f.members m).isSome = true ↔ .make m ∈ ops
  linked : ∀ l o, f.members l.sink = some o →
    (o.linked = true ↔ .link l ∈ after (.make l.sink) ops)
  thread : ∀ m o, f.members m = some o → (o.thread = true ↔ m.line.isSome ∧ .start m ∈ ops)
  started : ∀ m, .start m ∈ ops → .make m ∈ ops

theorem Mirrors.initial : Mirrors [] initial where
  made m := by simp [RedirectChannelFactory.initial]
  linked l o h := by simp [RedirectChannelFactory.initial] at h
  thread m o h := by simp [RedirectChannelFactory.initial] at h
  started m h := absurd h List.not_mem_nil

section Exec

variable {ops : List Op} {f : RedirectChannelFactory}

theorem Mirrors.get (h : Mirrors ops f) {m : Member} (hm : .make m ∈ ops) :
    ∃ o, f.members m = some o :=
  Option.isSome_iff_exists.mp ((h.made m).mpr hm)

theorem Mirrors.get_none (h : Mirrors ops f) {m : Member} (hm : .make m ∉ ops) :
    f.members m = none := by
  cases hf : f.members m with
  | none => rfl
  | some o => exact absurd ((h.made m).mp (by rw [hf]; rfl)) hm

/-- A statement that neither makes nor starts nor links a member. -/
theorem Mirrors.skip (h : Mirrors ops f) {op : Op} (hmake : ∀ m, op ≠ .make m)
    (hstart : ∀ m, op = .start m → m.line = none ∧ .make m ∈ ops) (hlink : ∀ l, op ≠ .link l) :
    Mirrors (ops ++ [op]) f where
  made m := by
    rw [h.made m, List.mem_append, List.mem_singleton]
    exact ⟨Or.inl, fun hm => hm.resolve_right (hmake m).symm⟩
  linked l o ho := by
    rw [h.linked l o ho, after_concat_of_ne ops (hmake l.sink), List.mem_append,
      List.mem_singleton]
    exact ⟨Or.inl, fun hl => hl.resolve_right (hlink l).symm⟩
  thread m o ho := by
    rw [h.thread m o ho, List.mem_append, List.mem_singleton]
    constructor
    · rintro ⟨hm, hs⟩
      exact ⟨hm, Or.inl hs⟩
    · rintro ⟨hm, hs⟩
      refine ⟨hm, hs.resolve_right fun heq => ?_⟩
      rw [(hstart m heq.symm).1] at hm
      cases hm
  started m hm := by
    rcases List.mem_append.mp hm with hm | hm
    · exact List.mem_append_left _ (h.started m hm)
    · exact List.mem_append_left _ (hstart m (List.mem_singleton.mp hm).symm).2

theorem Mirrors.make (h : Mirrors ops f) (m : Member) (hfresh : m.line.isSome → .start m ∉ ops) :
    Mirrors (ops ++ [.make m]) (f.set m (some ⟨false, false⟩)) where
  made m' := by
    by_cases hm : m' = m
    · subst hm
      simp [set]
    · simp [set, h.made m', hm]
  linked l o ho := by
    by_cases hm : l.sink = m
    · subst hm
      simp only [set, Function.update_self, Option.some.injEq] at ho
      subst ho
      simp [after_concat_self]
    · simp only [set, Function.update_of_ne hm] at ho
      have hne : Op.make m ≠ .make l.sink := fun heq => hm (Op.make.inj heq).symm
      rw [h.linked l o ho, after_concat_of_ne ops hne]
      simp
  thread m' o ho := by
    by_cases hm : m' = m
    · subst hm
      simp only [set, Function.update_self, Option.some.injEq] at ho
      subst ho
      simpa using hfresh
    · simp only [set, Function.update_of_ne hm] at ho
      rw [h.thread m' o ho]
      simp
  started m' hm := by
    simp only [List.mem_append, List.mem_singleton, reduceCtorEq, or_false] at hm
    exact List.mem_append_left _ (h.started m' hm)

theorem Mirrors.start (h : Mirrors ops f) {m : Member} {l : MediaLine} {o : MemberObject}
    (hl : m.line = some l) (ho : f.members m = some o) :
    Mirrors (ops ++ [.start m]) (f.set m (some { o with thread := true })) where
  made m' := by
    by_cases hm : m' = m
    · subst hm
      simp [set, ← h.made m', ho]
    · simp [set, Function.update_of_ne hm, h.made m']
  linked l' o' ho' := by
    have hne : Op.start m ≠ .make l'.sink := nofun
    rw [after_concat_of_ne ops hne]
    by_cases hm : l'.sink = m
    · subst hm
      simp only [set, Function.update_self, Option.some.injEq] at ho'
      subst ho'
      simp [h.linked l' o ho]
    · simp only [set, Function.update_of_ne hm] at ho'
      simp [h.linked l' o' ho']
  thread m' o' ho' := by
    by_cases hm : m' = m
    · subst hm
      simp only [set, Function.update_self, Option.some.injEq] at ho'
      subst ho'
      simp [hl]
    · simp only [set, Function.update_of_ne hm] at ho'
      rw [h.thread m' o' ho']
      simp [hm]
  started m' hm := by
    rcases List.mem_append.mp hm with hm | hm
    · exact List.mem_append_left _ (h.started m' hm)
    · obtain rfl := Op.start.inj (List.mem_singleton.mp hm)
      exact List.mem_append_left _ ((h.made m').mp (by rw [ho]; rfl))

theorem Mirrors.link (h : Mirrors ops f) {l : MediaLine} {source sink : MemberObject}
    (hsource : f.members l.source = some source) (hsink : f.members l.sink = some sink) :
    Mirrors (ops ++ [.link l]) ((f.set l.source (some { source with linked := true })).set l.sink
      (some { sink with linked := true })) where
  made m := by
    have hmem : Op.make m ∈ ops ++ [.link l] ↔ .make m ∈ ops := by simp
    rw [hmem, ← h.made m]
    by_cases hm : m = l.sink
    · subst hm
      simp [set, hsink]
    · by_cases hm' : m = l.source
      · subst hm'
        simp [set, Function.update_of_ne hm, hsource]
      · simp [set, Function.update_of_ne hm, Function.update_of_ne hm']
  linked l' o ho := by
    have hne : Op.link l ≠ .make l'.sink := nofun
    rw [after_concat_of_ne ops hne]
    by_cases hl : l' = l
    · subst hl
      simp only [set, Function.update_self, Option.some.injEq] at ho
      subst ho
      simp
    · have hm : l'.sink ≠ l.sink := fun heq => hl (sink_inj heq)
      have hm' : l'.sink ≠ l.source := (source_ne_sink l l').symm
      simp only [set, Function.update_of_ne hm, Function.update_of_ne hm'] at ho
      rw [h.linked l' o ho]
      simp [hl]
  thread m o ho := by
    have hmem : Op.start m ∈ ops ++ [.link l] ↔ .start m ∈ ops := by simp
    rw [hmem]
    by_cases hm : m = l.sink
    · subst hm
      simp only [set, Function.update_self, Option.some.injEq] at ho
      subst ho
      exact h.thread l.sink sink hsink
    · by_cases hm' : m = l.source
      · subst hm'
        simp only [set, Function.update_of_ne hm, Function.update_self, Option.some.injEq] at ho
        subst ho
        exact h.thread l.source source hsource
      · simp only [set, Function.update_of_ne hm, Function.update_of_ne hm'] at ho
        exact h.thread m o ho
  started m hm := by
    simp only [List.mem_append, List.mem_singleton, reduceCtorEq, or_false] at hm
    exact List.mem_append_left _ (h.started m hm)

end Exec

/-! ## Which lists of statements end the process -/

/-- The statements that the setup functions put in front of one, as far as they set a pointer that
it dereferences. -/
def needs : Op → List Op
  | .start m =>
    match m.line with
    | some l => [.operands l]
    | none => [.make m]
  | .queryPlugins => [.make .m_RDPProjectorPipeline]
  | .operands l => [.make l.source]
  | .link l => [.make l.source, .operands l]
  | .make _ => []
  | .WaitForConnection => []
  | .SetTcpNoDelay => []
  | .SetRecvBufferSize => []
  | .SetSendBufferSize => []
  | .makeTcpChannel => []

/-- Every statement has what it needs in front of it, `seen` included. -/
def Guarded : List Op → List Op → Prop
  | _, [] => True
  | seen, op :: ops => (∀ p ∈ needs op, p ∈ seen) ∧ Guarded (seen ++ [op]) ops

instance decidableGuarded : (seen ops : List Op) → Decidable (Guarded seen ops)
  | _, [] => .isTrue trivial
  | seen, op :: ops =>
    have := decidableGuarded (seen ++ [op]) ops
    inferInstanceAs (Decidable ((∀ p ∈ needs op, p ∈ seen) ∧ Guarded (seen ++ [op]) ops))

theorem guarded_append {seen ops ops' : List Op} :
    Guarded seen (ops ++ ops') ↔ Guarded seen ops ∧ Guarded (seen ++ ops) ops' := by
  induction ops generalizing seen with
  | nil => simp [Guarded]
  | cons op ops ih =>
    simp only [List.cons_append, Guarded, ih, and_assoc, List.append_assoc, List.nil_append]

theorem Guarded.mono {ops : List Op} : ∀ {seen seen' : List Op}, Guarded seen ops →
    (∀ p ∈ seen, p ∈ seen') → Guarded seen' ops := by
  induction ops with
  | nil => exact fun _ _ => trivial
  | cons op ops ih =>
    rintro seen seen' ⟨hop, hops⟩ hsub
    refine ⟨fun p hp => hsub p (hop p hp), ih hops ?_⟩
    intro p hp
    rcases List.mem_append.mp hp with hp | hp
    · exact List.mem_append_left _ (hsub p hp)
    · exact List.mem_append_right _ hp

/-- No sink is made or started after it was started. -/
def Uninterrupted (ops : List Op) : Prop :=
  ∀ l : MediaLine, ¬ Follows (.start l.sink) (.make l.sink) ops ∧
    ¬ Follows (.start l.sink) (.start l.sink) ops

/-- As far as the process gets to the first `source >> sink`, the sink was made before. -/
def MadeFirst (ops : List Op) (l : MediaLine) : Prop :=
  .operands l ∈ ops → Uninterrupted (before (.operands l) ops) →
    .make l.sink ∈ before (.operands l) ops

/-- If the process gets to the end, a sink that was made was linked after it was last made. -/
def LinkedLast (ops : List Op) (l : MediaLine) : Prop :=
  Uninterrupted ops → .make l.sink ∈ ops → .link l ∈ after (.make l.sink) ops

/-- Every sink is made before it is first linked and linked after it is last made. -/
def MadeAndLinked (ops : List Op) : Prop := ∀ l, MadeFirst ops l ∧ LinkedLast ops l

instance (ops : List Op) : Decidable (Uninterrupted ops) :=
  inferInstanceAs (Decidable (∀ _ : MediaLine, _))

instance (ops : List Op) (l : MediaLine) : Decidable (MadeFirst ops l) :=
  inferInstanceAs (Decidable (_ → _ → _))

instance (ops : List Op) (l : MediaLine) : Decidable (LinkedLast ops l) :=
  inferInstanceAs (Decidable (_ → _ → _))

instance (ops : List Op) : Decidable (MadeAndLinked ops) :=
  inferInstanceAs (Decidable (∀ _ : MediaLine, _))

/-- Does the statement end the process by what it does to a running sink? -/
def Interrupts (ops : List Op) (op : Op) : Prop :=
  ∃ l : MediaLine, (op = .make l.sink ∨ op = .start l.sink) ∧ .start l.sink ∈ ops

theorem uninterrupted_concat {ops : List Op} {op : Op} :
    Uninterrupted (ops ++ [op]) ↔ Uninterrupted ops ∧ ¬ Interrupts ops op := by
  simp only [Uninterrupted, Interrupts, follows_concat]
  constructor
  · intro h
    refine ⟨fun l => ⟨fun hf => (h l).1 (Or.inl hf), fun hf => (h l).2 (Or.inl hf)⟩, ?_⟩
    rintro ⟨l, hop | hop, hstart⟩
    · exact (h l).1 (Or.inr ⟨hstart, hop⟩)
    · exact (h l).2 (Or.inr ⟨hstart, hop⟩)
  · rintro ⟨h, hop⟩ l
    constructor
    · rintro (hf | ⟨hstart, heq⟩)
      · exact (h l).1 hf
      · exact hop ⟨l, Or.inl heq, hstart⟩
    · rintro (hf | ⟨hstart, heq⟩)
      · exact (h l).2 hf
      · exact hop ⟨l, Or.inr heq, hstart⟩

theorem madeFirst_concat {ops : List Op} {op : Op} {l : MediaLine} :
    MadeFirst (ops ++ [op]) l ↔
      MadeFirst ops l ∧
        (op = .operands l → .operands l ∉ ops → Uninterrupted ops → .make l.sink ∈ ops) := by
  unfold MadeFirst
  by_cases hmem : Op.operands l ∈ ops
  · rw [before_concat_of_mem hmem]
    simp [hmem]
  · by_cases hop : op = .operands l
    · subst hop
      rw [before_concat_self hmem]
      simp [hmem]
    · have hop' : Op.operands l ≠ op := Ne.symm hop
      simp [hmem, hop, hop']

section Cases

variable {ops : List Op} {f : RedirectChannelFactory}

/-- The statement is done and the factory follows. -/
def Done (ops : List Op) (f : RedirectChannelFactory) (op : Op) : Prop :=
  ∃ f', f.exec op = .ok f' ∧ Mirrors (ops ++ [op]) f' ∧ ¬ Interrupts ops op ∧
    ∀ l, op = .operands l → .make l.sink ∈ ops

/-- A statement that leaves the members alone. -/
theorem Mirrors.done (h : Mirrors ops f) {op : Op} (hexec : f.exec op = .ok f)
    (hmake : ∀ m, op ≠ .make m) (hstart : ∀ m, op = .start m → m.line = none ∧ .make m ∈ ops)
    (hlink : ∀ l, op ≠ .link l) (hsink : ∀ l, op = .operands l → .make l.sink ∈ ops) :
    Done ops f op := by
  refine ⟨f, hexec, h.skip hmake hstart hlink, ?_, hsink⟩
  rintro ⟨l, hop | hop, -⟩
  · exact hmake l.sink hop
  · have hl := (hstart l.sink hop).1
    rw [line_sink] at hl
    cases hl

theorem Mirrors.exec_make (h : Mirrors ops f) (m : Member) :
    Done ops f (.make m) ∨ f.exec (.make m) = .error .terminate ∧ Interrupts ops (.make m) := by
  have hthread : ((f.members m).map (·.thread)).getD false = true ↔
      m.line.isSome ∧ .start m ∈ ops := by
    cases hf : f.members m with
    | none =>
      have hnot : Op.start m ∉ ops := fun hs => by
        obtain ⟨o, ho⟩ := h.get (h.started m hs)
        rw [hf] at ho
        cases ho
      simp [hnot]
    | some o => simpa using h.thread m o hf
  by_cases hrun : m.line.isSome ∧ .start m ∈ ops
  · obtain ⟨l, hl⟩ := Option.isSome_iff_exists.mp hrun.1
    obtain rfl := line_eq_some.mp hl
    exact Or.inr ⟨if_pos (hthread.mpr hrun), l, Or.inl rfl, hrun.2⟩
  · refine Or.inl ⟨_, if_neg (mt hthread.mp hrun), h.make m fun hm hs => hrun ⟨hm, hs⟩, ?_, nofun⟩
    rintro ⟨l, hop | hop, hs⟩
    · obtain rfl := Op.make.inj hop
      exact hrun ⟨by rw [line_sink]; rfl, hs⟩
    · cases hop

theorem Mirrors.exec_start (h : Mirrors ops f) {m : Member} (hm : .make m ∈ ops) :
    Done ops f (.start m) ∨ f.exec (.start m) = .error .terminate ∧ Interrupts ops (.start m) := by
  obtain ⟨o, ho⟩ := h.get hm
  have hderef : f.deref m = .ok o := by rw [deref, ho]
  cases hl : m.line with
  | none =>
    refine Or.inl (h.done ?_ nofun (fun m' heq => ?_) nofun nofun)
    · simp only [exec, hderef, hl]
      rfl
    · obtain rfl := Op.start.inj heq
      exact ⟨hl, hm⟩
  | some l =>
    obtain rfl := line_eq_some.mp hl
    have hexec : f.exec (.start l.sink) = if o.thread then .error .terminate
        else .ok (f.set l.sink (some { o with thread := true })) := by
      simp only [exec, hderef, hl]
      rfl
    have hthread := h.thread l.sink o ho
    rw [line_sink] at hthread
    by_cases hs : Op.start l.sink ∈ ops
    · refine Or.inr ⟨?_, l, Or.inr rfl, hs⟩
      rw [hexec, if_pos (hthread.mpr ⟨rfl, hs⟩)]
    · refine Or.inl ⟨_, ?_, h.start hl ho, ?_, nofun⟩
      · rw [hexec, if_neg fun hthr => hs (hthread.mp hthr).2]
      · rintro ⟨l', hop | hop, hs'⟩
        · cases hop
        · exact hs ((Op.start.inj hop) ▸ hs')

theorem Mirrors.exec_operands (h : Mirrors ops f) {l : MediaLine} (hsource : .make l.source ∈ ops) :
    Done ops f (.operands l) ∨
      f.exec (.operands l) = .error .nullDereference ∧ .make l.sink ∉ ops := by
  obtain ⟨source, hf⟩ := h.get hsource
  have hderef : f.deref l.source = .ok source := by rw [deref, hf]
  by_cases hsink : Op.make l.sink ∈ ops
  · obtain ⟨sink, hf'⟩ := h.get hsink
    have hderef' : f.deref l.sink = .ok sink := by rw [deref, hf']
    refine Or.inl (h.done ?_ nofun nofun nofun fun l' hop => ?_)
    · simp only [exec, hderef, hderef']
      rfl
    · exact Op.operands.inj hop ▸ hsink
  · have hderef' : f.deref l.sink = .error .nullDereference := by
      rw [deref, h.get_none hsink]
    refine Or.inr ⟨?_, hsink⟩
    simp only [exec, hderef, hderef']
    rfl

theorem Mirrors.exec_link (h : Mirrors ops f) {l : MediaLine} (hsource : .make l.source ∈ ops)
    (hsink : .make l.sink ∈ ops) : Done ops f (.link l) := by
  obtain ⟨source, hf⟩ := h.get hsource
  obtain ⟨sink, hf'⟩ := h.get hsink
  have hderef : f.deref l.source = .ok source := by rw [deref, hf]
  have hderef' : f.deref l.sink = .ok sink := by rw [deref, hf']
  refine ⟨_, ?_, h.link hf hf', ?_, nofun⟩
  · simp only [exec, hderef, hderef']
    rfl
  · rintro ⟨l', hop | hop, -⟩ <;> cases hop

/-- **One statement**, in a process that has come this far: it is done, or it ends the process for
one of the two reasons. -/
theorem Mirrors.exec_cases (h : Mirrors ops f)
    (hmade : ∀ l, .operands l ∈ ops → .make l.sink ∈ ops) {op : Op}
    (hneeds : ∀ p ∈ needs op, p ∈ ops) :
    Done ops f op ∨
      (f.exec op = .error .terminate ∧ Interrupts ops op ∧ ∀ l, op ≠ .operands l) ∨
      (f.exec op = .error .nullDereference ∧ ∃ l, op = .operands l ∧ .make l.sink ∉ ops) := by
  cases op with
  | make m => exact (h.exec_make m).imp_right fun ⟨he, hi⟩ => Or.inl ⟨he, hi, nofun⟩
  | start m =>
    have hm : Op.make m ∈ ops := by
      cases hl : m.line with
      | none => exact hneeds _ (by simp [needs, hl])
      | some l =>
        obtain rfl := line_eq_some.mp hl
        exact hmade l (hneeds _ (by simp [needs, hl]))
    exact (h.exec_start hm).imp_right fun ⟨he, hi⟩ => Or.inl ⟨he, hi, nofun⟩
  | queryPlugins =>
    obtain ⟨o, ho⟩ := h.get (hneeds _ (List.mem_singleton.mpr rfl))
    refine Or.inl (h.done ?_ nofun nofun nofun nofun)
    simp only [exec, deref, ho]
    rfl
  | operands l =>
    have hsource := hneeds _ (List.mem_singleton.mpr rfl)
    exact (h.exec_operands hsource).imp_right fun ⟨he, hs⟩ => Or.inr ⟨he, l, rfl, hs⟩
  | link l =>
    exact Or.inl (h.exec_link (hneeds _ (by simp [needs])) (hmade l (hneeds _ (by simp [needs]))))
  | WaitForConnection => exact Or.inl (h.done rfl nofun nofun nofun nofun)
  | SetTcpNoDelay => exact Or.inl (h.done rfl nofun nofun nofun nofun)
  | SetRecvBufferSize => exact Or.inl (h.done rfl nofun nofun nofun nofun)
  | SetSendBufferSize => exact Or.inl (h.done rfl nofun nofun nofun nofun)
  | makeTcpChannel => exact Or.inl (h.done rfl nofun nofun nofun nofun)

end Cases

theorem execAll_concat (f : RedirectChannelFactory) (ops : List Op) (op : Op) :
    f.execAll (ops ++ [op]) = f.execAll ops >>= fun f' => f'.exec op := by
  simp [execAll, List.foldlM_append]

/-- **A list of statements** from the unset members on: it is done to the end, or a running sink
or an unset one ends the process, whichever comes first. -/
theorem execAll_cases {ops : List Op} (hg : Guarded [] ops) :
    (∃ f, initial.execAll ops = .ok f ∧ Mirrors ops f ∧ Uninterrupted ops ∧
        (∀ l, .operands l ∈ ops → .make l.sink ∈ ops) ∧ ∀ l, MadeFirst ops l) ∨
      (initial.execAll ops = .error .terminate ∧ ¬ Uninterrupted ops ∧ ∀ l, MadeFirst ops l) ∨
      (initial.execAll ops = .error .nullDereference ∧ ∃ l, ¬ MadeFirst ops l) := by
  -- on the length of the trace: its last statement comes to what `Mirrors.exec_cases` says
  induction ops using List.reverseRecOn with
  | nil =>
    refine Or.inl ⟨initial, rfl, .initial, ?_, fun l h => absurd h List.not_mem_nil,
      fun l h => absurd h List.not_mem_nil⟩
    intro l
    constructor <;>
    · intro h
      cases h
  | append_singleton ops op ih =>
    obtain ⟨hguard, hop⟩ := guarded_append.mp hg
    rw [execAll_concat]
    rcases ih hguard with ⟨f, hf, hm, hun, hmade, hfirst⟩ | ⟨hf, hun, hfirst⟩ | ⟨hf, l, hfirst⟩
    · rw [hf]
      rcases hm.exec_cases hmade hop.1 with ⟨f', hf', hm', hint, hsink⟩ | ⟨he, hint, hne⟩ |
        ⟨he, l, rfl, hsink⟩
      · refine Or.inl ⟨f', hf', hm', uninterrupted_concat.mpr ⟨hun, hint⟩, fun l hl => ?_, fun l =>
          madeFirst_concat.mpr ⟨hfirst l, fun heq _ _ => hsink l heq⟩⟩
        rcases List.mem_append.mp hl with hl | hl
        · exact List.mem_append_left _ (hmade l hl)
        · exact List.mem_append_left _ (hsink l (List.mem_singleton.mp hl).symm)
      · exact Or.inr (Or.inl ⟨he, fun h => (uninterrupted_concat.mp h).2 hint, fun l =>
          madeFirst_concat.mpr ⟨hfirst l, fun heq => absurd heq (hne l)⟩⟩)
      · refine Or.inr (Or.inr ⟨he, l, fun h => hsink ?_⟩)
        exact (madeFirst_concat.mp h).2 rfl (fun hl => hsink (hmade l hl)) hun
    · rw [hf]
      exact Or.inr (Or.inl ⟨rfl, fun h => hun (uninterrupted_concat.mp h).1, fun l =>
        madeFirst_concat.mpr ⟨hfirst l, fun _ _ h => absurd h hun⟩⟩)
    · rw [hf]
      exact Or.inr (Or.inr ⟨rfl, l, fun h => hfirst (madeFirst_concat.mp h).1⟩)

/-! ## The teardown -/

theorem stop_of_ne {f f' : RedirectChannelFactory} {m m' : Member} (h : f.stop m = .ok f')
    (hne : m' ≠ m) : f'.members m' = f.members m' := by
  unfold stop at h
  split at h
  · exact Except.ok.inj h ▸ rfl
  · split at h
    · exact Except.ok.inj h ▸ Function.update_of_ne hne _ _
    · split at h
      · split at h
        · exact Except.ok.inj h ▸ Function.update_of_ne hne _ _
        · cases h
      · exact Except.ok.inj h ▸ rfl

/-- The sink of the line is set and has no pipe. -/
def Unpiped (f : RedirectChannelFactory) (l : MediaLine) : Prop :=
  ∃ o, f.members l.sink = some o ∧ o.linked = false

theorem stop_cases (f : RedirectChannelFactory) (m : Member) :
    (f.stop m = .error .nullDereference ∧ ∃ l : MediaLine, m = l.sink ∧ f.Unpiped l) ∨
      ((∃ f', f.stop m = .ok f') ∧ ∀ l : MediaLine, m = l.sink → ¬ f.Unpiped l) := by
  unfold stop
  cases hm : f.members m with
  | none =>
    refine Or.inr ⟨⟨f, rfl⟩, ?_⟩
    rintro l rfl ⟨o, ho, -⟩
    rw [hm] at ho
    cases ho
  | some o =>
    by_cases htouch : m = .m_TouchAndPen
    · subst htouch
      refine Or.inr ⟨⟨_, if_pos rfl⟩, ?_⟩
      intro l hl
      cases l <;> cases hl
    · cases hl : m.line with
      | none =>
        refine Or.inr ⟨⟨f, if_neg htouch⟩, ?_⟩
        intro l hsink
        rw [line_eq_some.mpr hsink] at hl
        cases hl
      | some l =>
        obtain rfl := line_eq_some.mp hl
        cases hlinked : o.linked with
        | false => exact Or.inl ⟨by simp [htouch, hlinked], l, rfl, o, hm, hlinked⟩
        | true =>
          refine Or.inr ⟨⟨f.set l.sink (some { o with thread := false }), ?_⟩, ?_⟩
          · simp [htouch, hlinked]
          · rintro l' hl' ⟨o', ho', hno⟩
            rw [← hl', hm] at ho'
            rw [← Option.some.inj ho', hlinked] at hno
            cases hno

theorem stopAll_cases {ms : List Member} (hnodup : ms.Nodup) (f : RedirectChannelFactory) :
    (ms.foldlM stop f = .error .nullDereference ∧ ∃ l : MediaLine, l.sink ∈ ms ∧ f.Unpiped l) ∨
      ((∃ f', ms.foldlM stop f = .ok f') ∧ ∀ l : MediaLine, l.sink ∈ ms → ¬ f.Unpiped l) := by
  induction ms generalizing f with
  | nil => exact Or.inr ⟨⟨f, rfl⟩, fun _ h => absurd h List.not_mem_nil⟩
  | cons m ms ih =>
    obtain ⟨hm, hms⟩ := List.nodup_cons.mp hnodup
    rw [List.foldlM_cons]
    rcases f.stop_cases m with ⟨hf, l, rfl, hl⟩ | ⟨⟨f', hf⟩, hpiped⟩
    · rw [hf]
      exact Or.inl ⟨rfl, l, List.mem_cons_self, hl⟩
    · rw [hf]
      -- the stops behind it find the other sinks as they were
      have hsame : ∀ l : MediaLine, l.sink ∈ ms → (f'.Unpiped l ↔ f.Unpiped l) := by
        intro l hl
        rw [Unpiped, Unpiped, stop_of_ne hf fun heq => hm (heq ▸ hl)]
      rcases ih hms f' with ⟨he, l, hl, hno⟩ | ⟨hok, hrest⟩
      · exact Or.inl ⟨he, l, List.mem_cons_of_mem m hl, (hsame l hl).mp hno⟩
      · refine Or.inr ⟨hok, ?_⟩
        intro l hl hno
        rcases List.mem_cons.mp hl with heq | hl
        · exact hpiped l heq.symm hno
        · exact hrest l hl ((hsame l hl).mpr hno)

/-- **The teardown** dereferences a null pointer iff some sink has no pipe. -/
theorem DestoryAllChannel_cases (f : RedirectChannelFactory) :
    (f.DestoryAllChannel = .error .nullDereference ∧ ∃ l, f.Unpiped l) ∨
      ((∃ f', f.DestoryAllChannel = .ok f') ∧ ∀ l, ¬ f.Unpiped l) := by
  have hnodup : stopOrder.Nodup := by decide
  have hall : ∀ l : MediaLine, l.sink ∈ stopOrder := by decide
  rcases stopAll_cases hnodup f with ⟨he, l, -, hno⟩ | ⟨hok, hrest⟩
  · exact Or.inl ⟨he, l, hno⟩
  · exact Or.inr ⟨hok, fun l => hrest l (hall l)⟩

theorem Mirrors.unpiped_iff {ops : List Op} {f : RedirectChannelFactory} (h : Mirrors ops f)
    (hun : Uninterrupted ops) (l : MediaLine) : f.Unpiped l ↔ ¬ LinkedLast ops l := by
  constructor
  · rintro ⟨o, ho, hno⟩ hlast
    have hmade := (h.made l.sink).mp (by rw [ho]; rfl)
    rw [(h.linked l o ho).mpr (hlast hun hmade)] at hno
    cases hno
  · intro hlast
    have hmade : Op.make l.sink ∈ ops := by
      by_contra hnot
      exact hlast fun _ hm => absurd hm hnot
    obtain ⟨o, ho⟩ := h.get hmade
    refine ⟨o, ho, ?_⟩
    cases hlinked : o.linked with
    | false => rfl
    | true => exact absurd (fun _ _ => (h.linked l o ho).mp hlinked) hlast

/-- **The statements and the teardown behind them** dereference no null pointer iff the sinks are
made and linked in this order. -/
theorem teardown_safe_iff {ops : List Op} (hg : Guarded [] ops) :
    (initial.execAll ops >>= DestoryAllChannel) ≠ .error .nullDereference ↔
      MadeAndLinked ops := by
  rcases execAll_cases hg with ⟨f, hf, hm, hun, -, hfirst⟩ | ⟨hf, hun, hfirst⟩ | ⟨hf, l, hfirst⟩
  · rw [hf]
    have hbind : (Except.ok f >>= DestoryAllChannel) = f.DestoryAllChannel := rfl
    rw [hbind]
    rcases f.DestoryAllChannel_cases with ⟨he, l, hno⟩ | ⟨⟨f', hok⟩, hpiped⟩
    · rw [he]
      exact iff_of_false (fun h => h rfl) fun h => (hm.unpiped_iff hun l).mp hno (h l).2
    · rw [hok]
      refine iff_of_true nofun fun l => ⟨hfirst l, ?_⟩
      by_contra hlast
      exact hpiped l ((hm.unpiped_iff hun l).mpr hlast)
  · rw [hf]
    exact iff_of_true nofun fun l => ⟨hfirst l, fun h => absurd h hun⟩
  · rw [hf]
    exact iff_of_false (fun h => h rfl) fun h => hfirst (h l).1

end RedirectChannelFactory

end TiraRdp
