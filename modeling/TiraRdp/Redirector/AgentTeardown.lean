import TiraRdp.Lib.Locks
import TiraRdp.Redirector.ProjectorAgent

/-!
# Destroying a `ProjectorAgent`

`~ProjectorAgent` (`redirector-client/ProjectorAgent.cpp:83-89`) against the RTSP worker in
`RtspSession::Workloop` (`common/rtsp/RtspSession.cpp:74-99`), over the agent of `ProjectorAgent`.
Here `_mutex` is a field: the operations hold it within one action, the worker from its `lock` to
its `record`, the destructor from its first line to its end, over `_rtsp.Stop()`, which writes the
status that `CanLoopContinue` reads and joins the worker.

`WaitsFor` is who waits for whom: the destructor and the worker at `_mutex`, the destructor in the
join. Another thread in an operation may wait for `_mutex` too, but nobody waits for it.

Result: there is no deadlock in any state of a run iff the destructor comes to the join only while
the worker is not at `_mutex`, and from then on no response that the worker compares carries the
CSeq of the request it is compared with (`no_deadlock_iff`).
-/

namespace TiraRdp

open Lib.Lts Lib.Locks

/-- Where the RTSP worker is; in `ReceivedResponseEvent`, the agent's handler tells where. -/
inductive RtspWorkerPc where
  /-- in `CanLoopContinue` -/
  | check
  | receiving
  | handling
  /-- in `ReceivedResponseEvent`, under `_mutex` -/
  | locked
  | ended
  deriving Repr, DecidableEq

inductive DestructorPc where
  | outside
  /-- at `_mutex` -/
  | enter
  /-- under `_mutex`, in `_rtsp.Stop()` before the join -/
  | stopping
  /-- under `_mutex`, in the join of the RTSP worker -/
  | joining
  | done
  deriving Repr, DecidableEq

inductive AgentParty where
  | destructor
  | worker
  deriving Repr, DecidableEq

structure AgentTeardown where
  agent : ProjectorAgent
  _mutex : Option AgentParty
  worker : RtspWorkerPc
  destructor : DestructorPc
  /-- the worker's `m_status` is `Status_Stopped` -/
  stopped : Bool

namespace AgentTeardown

/-- A connected agent. -/
def initial : AgentTeardown where
  agent := .initial
  _mutex := none
  worker := .check
  destructor := .outside
  stopped := false

/-- The actions of a thread in an operation, which takes `_mutex` for each. -/
def ofOperation : ProjectorAgent.Action → Bool
  | .issue _ _ => true
  | .issueFails _ => true
  | .wake _ _ _ => true
  | _ => false

def ofTimer : ProjectorAgent.Action → Bool
  | .heartbeatCSeq => true
  | .heartbeatSend _ => true
  | _ => false

inductive Action where
  | operation (a : ProjectorAgent.Action)
  | timer (a : ProjectorAgent.Action)
  /-- `Disconnect`, up to the status -/
  | disconnect
  | checks
  | receives (response : IMsg)
  /-- less than a message, or a request -/
  | receivesOther
  /-- `Recv` throws, and the loop is left -/
  | disconnected
  | compare
  | lock
  | record
  | destroys
  | enters
  | stops
  | joined

/-- Has the worker left `ReceivedResponseEvent`? -/
def afterCompare : ResponseHandler → RtspWorkerPc
  | .idle => .check
  | .comparing _ _ => .handling
  | .matched _ _ => .handling

def step (s : AgentTeardown) : Action → Option AgentTeardown
  | .operation a =>
    if ofOperation a ∧ s._mutex = none ∧ s.destructor ≠ .done then
      (s.agent.step a).map fun agent => { s with agent }
    else none
  | .timer a =>
    if ofTimer a ∧ s.destructor ≠ .done then (s.agent.step a).map fun agent => { s with agent }
    else none
  | .disconnect => if s.destructor = .done then none else some { s with stopped := true }
  | .checks =>
    if s.worker = .check then some { s with worker := if s.stopped then .ended else .receiving }
    else none
  | .receives response =>
    if s.worker = .receiving then
      (s.agent.step (.receive response)).map fun agent => { s with agent, worker := .handling }
    else none
  | .receivesOther => if s.worker = .receiving then some { s with worker := .check } else none
  | .disconnected => if s.worker = .receiving then some { s with worker := .ended } else none
  | .compare =>
    if s.worker = .handling then
      (s.agent.step .compare).map fun agent =>
        { s with agent, worker := afterCompare agent.handler }
    else none
  | .lock =>
    match s.agent.handler with
    | .matched _ _ =>
      if s.worker = .handling ∧ s._mutex = none then
        some { s with _mutex := some .worker, worker := .locked }
      else none
    | _ => none
  | .record =>
    if s.worker = .locked then
      (s.agent.step .record).map fun agent => { s with agent, _mutex := none, worker := .check }
    else none
  | .destroys => if s.destructor = .outside then some { s with destructor := .enter } else none
  | .enters =>
    if s.destructor = .enter ∧ s._mutex = none then
      some { s with
        agent := { s.agent with _canncelled := true }
        _mutex := some .destructor
        destructor := .stopping }
    else none
  | .stops =>
    if s.destructor = .stopping then some { s with destructor := .joining, stopped := true }
    else none
  | .joined =>
    if s.destructor = .joining ∧ s.worker = .ended then
      some { s with _mutex := none, destructor := .done }
    else none

/-- The worker has matched a response and not yet taken `_mutex`. -/
def AtMutex (s : AgentTeardown) : Prop :=
  s.worker = .handling ∧ ∃ k response, s.agent.handler = .matched k response

inductive WaitsFor (s : AgentTeardown) : AgentParty → AgentParty → Prop
  | handler {p : AgentParty} (hat : s.AtMutex) (hheld : s._mutex = some p) : WaitsFor s .worker p
  | enter {p : AgentParty} (hpc : s.destructor = .enter) (hheld : s._mutex = some p) :
    WaitsFor s .destructor p
  | join (hpc : s.destructor = .joining) (hlives : s.worker ≠ .ended) :
    WaitsFor s .destructor .worker

/-- The destructor comes to the join while the worker is not at `_mutex`, and nothing that is
compared behind that matches. -/
def Clear (s : AgentTeardown) : Action → Prop
  | .stops => ¬ s.AtMutex
  | .compare =>
    s.destructor = .joining → ∀ k rest response, s.agent.handler = .comparing response (k :: rest) →
      (s.agent.requests k)._cseq ≠ response._cseq
  | _ => True

instance (s : AgentTeardown) : Decidable s.AtMutex :=
  match hhandler : s.agent.handler with
  | .matched k response =>
    decidable_of_iff (s.worker = .handling) ⟨fun hpc => ⟨hpc, k, response, hhandler⟩, And.left⟩
  | .idle => .isFalse fun ⟨_, _, _, h⟩ => ResponseHandler.noConfusion (hhandler.symm.trans h)
  | .comparing _ _ => .isFalse fun ⟨_, _, _, h⟩ =>
    ResponseHandler.noConfusion (hhandler.symm.trans h)

/-- Does the next comparison of a handler differ? -/
def differs (requests : RequestKind → IMsg) : ResponseHandler → Bool
  | .comparing response (k :: _) => (requests k)._cseq != response._cseq
  | _ => true

theorem differs_iff (s : AgentTeardown) : differs s.agent.requests s.agent.handler = true ↔
    ∀ k rest response, s.agent.handler = .comparing response (k :: rest) →
      (s.agent.requests k)._cseq ≠ response._cseq := by
  unfold differs
  split
  · rename_i response k rest hhandler
    simp [hhandler]
  · rename_i hhandler
    simp only [true_iff]
    exact fun k rest response heq => absurd heq (hhandler response k rest)

instance (s : AgentTeardown) : DecidablePred s.Clear
  | .stops => inferInstanceAs (Decidable (¬ _))
  | .compare => decidable_of_iff
      (s.destructor = .joining → differs s.agent.requests s.agent.handler = true)
      (imp_congr_right fun _ => differs_iff s)
  | .operation _ | .timer _ | .disconnect | .checks | .receives _ | .receivesOther | .disconnected
  | .lock | .record | .destroys | .enters | .joined => .isTrue trivial

/-! ## What a step can be -/

/-- The steps, of the agent only what the teardown sees. -/
inductive Moves (s : AgentTeardown) : Action → AgentTeardown → Prop
  | operation (a : ProjectorAgent.Action) (agent : ProjectorAgent) (hfree : s._mutex = none)
      (hhandler : agent.handler = s.agent.handler) : Moves s (.operation a) { s with agent }
  | timer (a : ProjectorAgent.Action) (agent : ProjectorAgent)
      (hhandler : agent.handler = s.agent.handler) : Moves s (.timer a) { s with agent }
  | disconnect : Moves s .disconnect { s with stopped := true }
  | checks (pc : RtspWorkerPc) (hpc : s.worker = .check) (hnext : pc = .ended ∨ pc = .receiving) :
    Moves s .checks { s with worker := pc }
  | receives (response : IMsg) (hpc : s.worker = .receiving) (agent : ProjectorAgent)
      (hhandler : agent.handler = .comparing response RequestKind.all) :
    Moves s (.receives response) { s with agent, worker := .handling }
  | receivesOther (hpc : s.worker = .receiving) :
    Moves s .receivesOther { s with worker := .check }
  | disconnected (hpc : s.worker = .receiving) :
    Moves s .disconnected { s with worker := .ended }
  | differs (hpc : s.worker = .handling) (agent : ProjectorAgent)
      (hdiffers : ∀ k rest response, s.agent.handler = .comparing response (k :: rest) →
        (s.agent.requests k)._cseq ≠ response._cseq)
      (hnext : ∀ k response, agent.handler ≠ .matched k response) :
    Moves s .compare { s with agent, worker := afterCompare agent.handler }
  | same (hpc : s.worker = .handling) (k : RequestKind) (rest : List RequestKind)
      (response : IMsg) (hhandler : s.agent.handler = .comparing response (k :: rest))
      (hsame : (s.agent.requests k)._cseq = response._cseq) :
    Moves s .compare { s with agent := { s.agent with handler := .matched k response } }
  | lock (hpc : s.worker = .handling) (hfree : s._mutex = none) :
    Moves s .lock { s with _mutex := some .worker, worker := .locked }
  | record (hpc : s.worker = .locked) (agent : ProjectorAgent) :
    Moves s .record { s with agent, _mutex := none, worker := .check }
  | destroys (hpc : s.destructor = .outside) : Moves s .destroys { s with destructor := .enter }
  | enters (hpc : s.destructor = .enter) (hfree : s._mutex = none) :
    Moves s .enters { s with
      agent := { s.agent with _canncelled := true }
      _mutex := some .destructor
      destructor := .stopping }
  | stops (hpc : s.destructor = .stopping) :
    Moves s .stops { s with destructor := .joining, stopped := true }
  | joined (hpc : s.destructor = .joining) (hended : s.worker = .ended) :
    Moves s .joined { s with _mutex := none, destructor := .done }

theorem finish_handler (agent : ProjectorAgent) (k : RequestKind) (cseq : Int) (connects : Bool) :
    (agent.finish k cseq connects).handler = agent.handler := by
  unfold ProjectorAgent.finish
  split_ifs <;> rfl

/-- Operations and the timer leave the RTSP worker where it is. -/
theorem step_handler {agent agent' : ProjectorAgent} {a : ProjectorAgent.Action}
    (ha : ofOperation a = true ∨ ofTimer a = true) (hs : agent.step a = some agent') :
    agent'.handler = agent.handler := by
  cases a with
  | issue k connects =>
    obtain rfl := Option.some.inj hs
    split_ifs
    · exact finish_handler _ _ _ _
    · rfl
  | issueFails k => exact Option.some.inj hs ▸ rfl
  | heartbeatCSeq => exact Option.some.inj hs ▸ rfl
  | heartbeatSend goesOut => exact Option.some.inj hs ▸ rfl
  | wake i timeout connects =>
    simp only [ProjectorAgent.step] at hs
    cases hi : agent.waiting[i]? with
    | none => simp [hi] at hs
    | some w =>
      simp only [hi] at hs
      split_ifs at hs
      · exact Option.some.inj hs ▸ finish_handler _ _ _ _
      · exact Option.some.inj hs ▸ rfl
      · exact Option.some.inj hs ▸ rfl
  | _ => simp [ofOperation, ofTimer] at ha

theorem step_moves {s s' : AgentTeardown} {a : Action} (hs : step s a = some s') :
    Moves s a s' := by
  unfold step at hs
  cases a with
  | operation a =>
    simp only [Option.ite_none_right_eq_some, Option.map_eq_some_iff] at hs
    obtain ⟨⟨ha, hfree, -⟩, agent, hagent, rfl⟩ := hs
    exact .operation a agent hfree (step_handler (.inl ha) hagent)
  | timer a =>
    simp only [Option.ite_none_right_eq_some, Option.map_eq_some_iff] at hs
    obtain ⟨⟨ha, -⟩, agent, hagent, rfl⟩ := hs
    exact .timer a agent (step_handler (.inr ha) hagent)
  | disconnect =>
    simp only [Option.ite_none_left_eq_some, Option.some.injEq] at hs
    exact hs.2 ▸ .disconnect
  | checks =>
    simp only [Option.ite_none_right_eq_some, Option.some.injEq] at hs
    refine hs.2 ▸ .checks _ hs.1 ?_
    cases s.stopped with
    | true => exact .inl rfl
    | false => exact .inr rfl
  | receives response =>
    simp only [Option.ite_none_right_eq_some, Option.map_eq_some_iff] at hs
    obtain ⟨hpc, agent, hagent, rfl⟩ := hs
    refine .receives response hpc agent ?_
    simp only [ProjectorAgent.step] at hagent
    split at hagent
    · exact Option.some.inj hagent ▸ rfl
    · cases hagent
  | receivesOther =>
    simp only [Option.ite_none_right_eq_some, Option.some.injEq] at hs
    exact hs.2 ▸ .receivesOther hs.1
  | disconnected =>
    simp only [Option.ite_none_right_eq_some, Option.some.injEq] at hs
    exact hs.2 ▸ .disconnected hs.1
  | compare =>
    simp only [Option.ite_none_right_eq_some, Option.map_eq_some_iff] at hs
    obtain ⟨hpc, agent, hagent, rfl⟩ := hs
    simp only [ProjectorAgent.step] at hagent
    split at hagent
    · rename_i response kinds hhandler
      -- where the next comparison is not the same, the handler has no request that matches
      have hdiffers : (∀ k, compareNext (fun k => (s.agent.requests k)._cseq) response._cseq kinds ≠
          .same k) → ∀ k rest response, s.agent.handler = .comparing response (k :: rest) →
          (s.agent.requests k)._cseq ≠ response._cseq := by
        rintro hnot k rest response' heq hsame
        rw [hhandler] at heq
        cases heq
        exact hnot k (compareNext_eq_same.mpr ⟨hsame, rfl⟩)
      split at hagent
      · rename_i k hnext
        obtain rfl := Option.some.inj hagent
        obtain ⟨hsame, hhead⟩ := compareNext_eq_same.mp hnext
        obtain ⟨rest, rfl⟩ := List.head?_eq_some_iff.mp hhead
        rw [afterCompare, ← hpc]
        exact .same hpc k rest response hhandler hsame
      · rename_i hnext
        obtain rfl := Option.some.inj hagent
        refine .differs hpc _ (hdiffers fun k hsame => ?_) (by rintro _ _ ⟨⟩)
        rw [hnext] at hsame
        cases hsame
      · rename_i hnext
        obtain rfl := Option.some.inj hagent
        refine .differs hpc _ (hdiffers fun k hsame => ?_) (by rintro _ _ ⟨⟩)
        rw [hnext] at hsame
        cases hsame
    · cases hagent
  | lock =>
    cases hhandler : s.agent.handler with
    | matched k response =>
      simp only [hhandler, Option.ite_none_right_eq_some, Option.some.injEq] at hs
      exact hs.2 ▸ .lock hs.1.1 hs.1.2
    | _ => simp [hhandler] at hs
  | record =>
    simp only [Option.ite_none_right_eq_some, Option.map_eq_some_iff] at hs
    obtain ⟨hpc, agent, -, rfl⟩ := hs
    exact .record hpc agent
  | destroys =>
    simp only [Option.ite_none_right_eq_some, Option.some.injEq] at hs
    exact hs.2 ▸ .destroys hs.1
  | enters =>
    simp only [Option.ite_none_right_eq_some, Option.some.injEq] at hs
    exact hs.2 ▸ .enters hs.1.1 hs.1.2
  | stops =>
    simp only [Option.ite_none_right_eq_some, Option.some.injEq] at hs
    exact hs.2 ▸ .stops hs.1
  | joined =>
    simp only [Option.ite_none_right_eq_some, Option.some.injEq] at hs
    exact hs.2 ▸ .joined hs.1.1 hs.1.2

/-! ## The mutex -/

/-- Who is in a phase under `_mutex`. -/
def UnderMutex (s : AgentTeardown) : AgentParty → Prop
  | .destructor => s.destructor = .stopping ∨ s.destructor = .joining
  | .worker => s.worker = .locked

variable {s s' : AgentTeardown} {a : Action}

theorem held_initial : Held initial._mutex initial.UnderMutex := by
  rintro (_ | _) <;> simp [initial, UnderMutex]

/-- A step of the worker outside `_mutex`. -/
theorem under_worker {p : AgentParty} (hdestructor : s'.destructor = s.destructor)
    (hbefore : s.worker ≠ .locked) (hafter : s'.worker ≠ .locked) :
    s'.UnderMutex p ↔ s.UnderMutex p := by
  cases p with
  | destructor => rw [UnderMutex, UnderMutex, hdestructor]
  | worker => simp [UnderMutex, hbefore, hafter]

theorem held_step (h : Held s._mutex s.UnderMutex) (hs : step s a = some s') :
    Held s'._mutex s'.UnderMutex := by
  cases step_moves hs with
  | operation => exact h.keep fun p => by cases p <;> rfl
  | timer => exact h.keep fun p => by cases p <;> rfl
  | disconnect => exact h.keep fun p => by cases p <;> rfl
  | checks pc hpc hnext =>
    refine h.keep fun p => under_worker rfl (by simp [hpc]) ?_
    rintro rfl
    simp at hnext
  | receives _ hpc => exact h.keep fun p => under_worker rfl (by simp [hpc]) nofun
  | receivesOther hpc => exact h.keep fun p => under_worker rfl (by simp [hpc]) nofun
  | disconnected hpc => exact h.keep fun p => under_worker rfl (by simp [hpc]) nofun
  | differs hpc agent =>
    refine h.keep fun p => under_worker rfl (by simp [hpc]) ?_
    cases agent.handler <;> simp [afterCompare]
  | same hpc => exact h.keep fun p => under_worker rfl (by simp [hpc]) (by simp [hpc])
  | lock hpc hfree =>
    rw [hfree] at h
    refine h.acquire rfl fun p hp => ?_
    cases p with
    | destructor => exact id
    | worker => exact absurd rfl hp
  | record hpc =>
    refine h.release (p := .worker) hpc nofun fun p hp => ?_
    cases p with
    | destructor => exact id
    | worker => exact absurd rfl hp
  | destroys hpc =>
    refine h.keep fun p => ?_
    cases p with
    | destructor => simp [UnderMutex, hpc]
    | worker => rfl
  | enters hpc hfree =>
    rw [hfree] at h
    refine h.acquire (.inl rfl) fun p hp => ?_
    cases p with
    | destructor => exact absurd rfl hp
    | worker => exact id
  | stops hpc =>
    refine h.keep fun p => ?_
    cases p with
    | destructor => simp [UnderMutex, hpc]
    | worker => rfl
  | joined hpc =>
    refine h.release (p := .destructor) (.inr hpc) (by simp [UnderMutex]) fun p hp => ?_
    cases p with
    | destructor => exact absurd rfl hp
    | worker => exact id

/-! ## Deadlock -/

/-- The destructor joins a worker that waits for its `_mutex`. -/
def Embraced (s : AgentTeardown) : Prop := s.destructor = .joining ∧ s.AtMutex

/-- The rank of a party outside the embrace: it waits only for lower ones. -/
def rank (s : AgentTeardown) : AgentParty → Nat
  | .destructor => if s.destructor = .joining then 2 else if s.destructor = .enter then 2 else 0
  | .worker => if s.worker = .handling then 1 else 0

theorem rank_lt (h : Held s._mutex s.UnderMutex) (hfree : ¬ s.Embraced) (p q : AgentParty)
    (hwait : s.WaitsFor p q) : s.rank q < s.rank p := by
  cases hwait with
  | handler hat hheld =>
    have hunder := (h q).mp hheld
    have hrank : s.rank .worker = 1 := if_pos hat.1
    cases q with
    | destructor =>
      rcases hunder with hstopping | hjoining
      · have hzero : s.rank .destructor = 0 := by simp [rank, hstopping]
        omega
      · exact absurd ⟨hjoining, hat⟩ hfree
    | worker =>
      have hlocked : s.worker = .locked := hunder
      rw [hat.1] at hlocked
      cases hlocked
  | enter hpc hheld =>
    have hunder := (h q).mp hheld
    have hrank : s.rank .destructor = 2 := by simp [rank, hpc]
    cases q with
    | destructor => simp [UnderMutex, hpc] at hunder
    | worker =>
      have hle : s.rank .worker ≤ 1 := by
        unfold rank
        split_ifs <;> decide
      omega
  | join hpc hlives =>
    have hrank : s.rank .destructor = 2 := if_pos hpc
    have hle : s.rank .worker ≤ 1 := by
      unfold rank
      split_ifs <;> decide
    omega

/-- **Deadlock, read off the state.** -/
theorem deadlock_iff_embraced (h : Held s._mutex s.UnderMutex) :
    Deadlock s.WaitsFor ↔ s.Embraced := by
  constructor
  · intro hdeadlock
    by_contra hfree
    exact not_deadlock_of_rank (rank_lt h hfree) hdeadlock
  · rintro ⟨hjoining, hat⟩
    have hunder : s.UnderMutex .destructor := .inr hjoining
    have hheld : s._mutex = some .destructor := h.holder hunder
    exact .of_two (.join hjoining (by simp [hat.1])) (.handler hat hheld)

/-- A clear step does not bring the two together. -/
theorem not_embraced_step (hfree : ¬ s.Embraced) (hclear : s.Clear a) (hs : step s a = some s') :
    ¬ s'.Embraced := by
  rintro ⟨hjoining, hworker, k, response, hhandler⟩
  cases step_moves hs with
  | operation _ agent _ hkept => exact hfree ⟨hjoining, hworker, k, response, hkept ▸ hhandler⟩
  | timer _ agent hkept => exact hfree ⟨hjoining, hworker, k, response, hkept ▸ hhandler⟩
  | disconnect => exact hfree ⟨hjoining, hworker, k, response, hhandler⟩
  | checks pc hpc hnext =>
    rcases hnext with rfl | rfl
    · cases hworker
    · cases hworker
  | receives r hpc agent hcomparing =>
    exact ResponseHandler.noConfusion (hcomparing.symm.trans hhandler)
  | receivesOther => cases hworker
  | disconnected => cases hworker
  | differs _ agent _ hnext => exact hnext k response hhandler
  | same _ k' rest r hcomparing hsame => exact hclear hjoining k' rest r hcomparing hsame
  | lock => cases hworker
  | record => cases hworker
  | destroys => cases hjoining
  | enters => cases hjoining
  | stops => exact hclear ⟨hworker, k, response, hhandler⟩
  | joined => cases hjoining

/-- A step that is not clear does. -/
theorem embraced_of_not_clear (hclear : ¬ s.Clear a) (hs : step s a = some s') : s'.Embraced := by
  cases step_moves hs with
  | stops hpc => exact ⟨rfl, not_not.mp hclear⟩
  | differs hpc agent hdiffers =>
    rw [Clear, Classical.not_imp] at hclear
    exact absurd hdiffers hclear.2
  | same hpc k rest response hhandler hsame =>
    rw [Clear, Classical.not_imp] at hclear
    exact ⟨hclear.1, hpc, k, response, rfl⟩
  | _ => exact absurd trivial hclear

/-- **Destroying an agent does not deadlock**, in any state of a run, exactly when the destructor
comes to the join only while the worker is not at `_mutex`, and behind that no response that the
worker compares matches. -/
theorem no_deadlock_iff (as : List Action) (s : AgentTeardown)
    (hrun : run step initial as = some s) :
    Meets step Clear initial as ↔ Along step (fun s => ¬ Deadlock s.WaitsFor) initial as := by
  refine meets_iff_along (I := fun s => Held s._mutex s.UnderMutex ∧ ¬ s.Embraced)
    (p := fun _ => True) ?_ ?_ ?_ ⟨held_initial, nofun⟩ (fun _ _ => trivial) hrun
  · rintro u ⟨hheld, hfree⟩
    rwa [deadlock_iff_embraced hheld]
  · rintro u a v ⟨hheld, hfree⟩ - hclear hs
    exact ⟨held_step hheld hs, not_embraced_step hfree hclear hs⟩
  · rintro u a v ⟨hheld, -⟩ - hclear hs
    rw [deadlock_iff_embraced (held_step hheld hs), not_not]
    exact embraced_of_not_clear hclear hs

/-- The resolution is answered; the destructor comes to the join while another response, which
nobody has asked for, is compared. -/
def answeredAndDestroyed : List Action :=
  [.operation (.issue .resolution true), .checks, .receives (ResponseMsg 0 true []), .compare, .lock,
    .record, .checks, .receives (ResponseMsg 99 true []), .destroys, .enters, .stops] ++
    .replicate 7 .compare ++ [.checks, .joined]

theorem no_deadlock_answered :
    (run step initial answeredAndDestroyed).isSome = true ∧
      Along step (fun s => ¬ Deadlock s.WaitsFor) initial answeredAndDestroyed := by
  have hsome : (run step initial answeredAndDestroyed).isSome = true := by decide +kernel
  obtain ⟨s, hs⟩ := Option.isSome_iff_exists.mp hsome
  exact ⟨hsome, (no_deadlock_iff answeredAndDestroyed s hs).mp (by decide +kernel)⟩

/-- The answer to the resolution arrives, and the destructor takes `_mutex` before it is
compared. -/
def destroyedUnderResponse : List Action :=
  [.operation (.issue .resolution true), .checks, .receives (ResponseMsg 0 true []), .destroys,
    .enters, .stops, .compare]

/-- The destructor joins the worker under `_mutex`, and the worker waits for `_mutex`. -/
theorem destructor_worker_deadlock :
    ¬ ∀ (as : List Action) (s : AgentTeardown), run step initial as = some s →
      ¬ Deadlock s.WaitsFor := by
  intro h
  have hend : (run step initial destroyedUnderResponse).any (fun s =>
      s.destructor = .joining ∧ s._mutex = some .destructor ∧ s.AtMutex) = true := by decide +kernel
  obtain ⟨s, hs, hjoining, hheld, hat⟩ := run_of_any hend
  exact h destroyedUnderResponse s hs
    (.of_two (.join hjoining (by simp [hat.1])) (.handler hat hheld))

end AgentTeardown

end TiraRdp
