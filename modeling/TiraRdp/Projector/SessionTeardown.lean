import TiraRdp.Lib.Lts
import TiraRdp.Projector.Session

/-!
# Stopping a session

`Session::Stop` and `~Session` (`projector/Session.cpp:20-24`, `:108-112`) against the RTSP worker
of the session, which takes the statements of its callback one at a time (`Session.exec`). `Stop`
shuts the RTSP socket down and joins the worker, destroys the channels, and only then the destructor
closes the port of `RedirectChannelFactory` (`RedirectChannelFactory.cpp:34-37`).

A connection to the port waits in the backlog until `WaitForConnection` takes it. The peer may open
connections until it leaves; the system may reset one that waits, which `SocketFuncs::Accept` passes
over. `accept` waits on an empty backlog, and it fails only on a closed port: `RtspSession` does not
override `UnBlockWorkingThread`. Any other statement may throw, any request may come, and the worker
may find its connection closed at any time.

`Hung`: the teardown is in the join, the worker in `WaitForConnection`, and no continuation of the
run in which the peer does not connect gets the teardown out of the join. That the peer could still
open the channel is no way out: it may never do so.

Result: no state of a run is hung in which every join begins with the connections waiting that the
request being served has still to accept, and none of them is lost behind that (`stop_never_hangs`).
A join that begins with fewer hangs, unless a statement fails first (`join_may_hang`).
-/

namespace TiraRdp

open Lib Lib.Lts

/-- Where the RTSP worker of a session is. -/
inductive SessionWorkerPc where
  /-- in `CanLoopContinue` -/
  | check
  | receiving
  /-- in the `try` block of a request, with the statements it has still to do -/
  | serving (request : IMsg) (rest : List Step)
  | ended
  deriving Repr, DecidableEq

/-- Where the thread that destroys the session is. -/
inductive SessionStopPc where
  | outside
  /-- in `RtspSession::Stop`, before the join -/
  | stopping
  | joining
  /-- about to call `DestoryAllChannel` -/
  | destroying
  /-- about to call `StopListening` -/
  | closing
  | closed
  deriving Repr, DecidableEq

structure SessionTeardown where
  session : Session
  worker : SessionWorkerPc
  teardown : SessionStopPc
  /-- the worker's `m_status` is `Status_Stopped` -/
  stopped : Bool
  /-- how many connections to the port wait -/
  backlog : Nat
  /-- may the peer still connect? -/
  peer : Bool

namespace SessionTeardown

/-- A started session. -/
def initial : SessionTeardown where
  session := .initial
  worker := .check
  teardown := .outside
  stopped := false
  backlog := 0
  peer := true

inductive Action where
  | connects
  | leaves
  | resets
  | checks
  | take (request : IMsg) (o : Outcome)
  /-- less than a message, or a response -/
  | receivesOther
  /-- `Recv` throws, and the loop is left -/
  | disconnected
  /-- the next statement, or the end of the block -/
  | serve
  /-- the next statement throws; does the `Send` of the handler return? -/
  | fails (what : Bytes) (answers : Bool)
  | stops
  | joins
  | joined
  | destroys
  | closes

def accepting : Step := .factory .WaitForConnection

def takeRequest (s : SessionTeardown) (request : IMsg) (o : Outcome) : SessionTeardown :=
  if request._cmd = RTSP_TYPE_HEART_BEAT then
    { s with session := s.session.Send (ResponseMsg request._cseq true []), worker := .check }
  else
    match Session.setup request._cmd with
    | some steps => { s with worker := .serving request steps }
    | none =>
      let session := s.session.ReceivedRequestEvent request o
      { s with session, worker := if session.ended.isSome then .ended else .check }

/-- One statement that throws nothing. -/
def serveStep (s : SessionTeardown) (request : IMsg) (step : Step) (rest : List Step) :
    Option SessionTeardown :=
  let t := { s with session := s.session.exec request step, worker := .serving request rest }
  if step = accepting then
    match s.backlog with
    | 0 => none
    | backlog + 1 => some { t with backlog }
  else some t

/-- The handler of the block. -/
def handle (s : SessionTeardown) (request : IMsg) (what : Bytes) (answers : Bool) :
    SessionTeardown :=
  if answers then
    { s with session := s.session.Send (ResponseMsg request._cseq false what), worker := .check }
  else { s with session := { s.session with ended := some .exception }, worker := .ended }

/-- Has the process ended? -/
def processEnded (s : SessionTeardown) : Bool :=
  match s.session.ended with
  | some (.process _) => true
  | _ => false

def step (s : SessionTeardown) (a : Action) : Option SessionTeardown :=
  if s.processEnded then none
  else
    match a with
    | .connects => if s.peer then some { s with backlog := s.backlog + 1 } else none
    | .leaves => if s.peer then some { s with peer := false } else none
    | .resets =>
      match s.backlog with
      | 0 => none
      | backlog + 1 => some { s with backlog }
    | .checks =>
      if s.worker = .check then some { s with worker := if s.stopped then .ended else .receiving }
      else none
    | .take request o => if s.worker = .receiving then some (s.takeRequest request o) else none
    | .receivesOther => if s.worker = .receiving then some { s with worker := .check } else none
    | .disconnected => if s.worker = .receiving then some { s with worker := .ended } else none
    | .serve =>
      match s.worker with
      | .serving request (step :: rest) => s.serveStep request step rest
      | .serving _ [] => some { s with worker := .check }
      | _ => none
    | .fails what answers =>
      match s.worker with
      | .serving request (step :: _) =>
        if step = accepting then none else some (s.handle request what answers)
      | _ => none
    | .stops => if s.teardown = .outside then some { s with teardown := .stopping } else none
    | .joins =>
      if s.teardown = .stopping then some { s with teardown := .joining, stopped := true } else none
    | .joined =>
      if s.teardown = .joining ∧ s.worker = .ended then some { s with teardown := .destroying }
      else none
    | .destroys =>
      if s.teardown = .destroying then
        some { s with session := s.session.Stop, teardown := .closing }
      else none
    | .closes => if s.teardown = .closing then some { s with teardown := .closed } else none

/-- The worker is in `WaitForConnection`. -/
def AtAccept (s : SessionTeardown) : Prop :=
  ∃ request rest, s.worker = .serving request (accepting :: rest)

/-- A step that does not wait for the peer to open a channel. -/
def Action.Unaided : Action → Prop
  | .connects => False
  | _ => True

/-- The teardown joins a worker in `WaitForConnection`, and without a connection that the peer has
still to open nothing gets it out of the join. -/
structure Hung (s : SessionTeardown) : Prop where
  lives : s.processEnded = false
  joining : s.teardown = .joining
  accepts : s.AtAccept
  never : ∀ as t, (∀ a ∈ as, a.Unaided) → run step s as = some t → t.teardown = .joining

def accepts (steps : List Step) : Nat := steps.count accepting

/-- How many connections the request being served has still to accept. -/
def needed (s : SessionTeardown) : Nat :=
  match s.worker with
  | .serving _ rest => accepts rest
  | _ => 0

/-- The connections that the worker has still to accept wait when the join begins. Behind that no
request is read that accepts more than waits, and none of those that are needed is reset. -/
def Provided (s : SessionTeardown) : Action → Prop
  | .joins => s.needed ≤ s.backlog
  | .take request _ => s.teardown = .joining →
    ∀ steps, Session.setup request._cmd = some steps → accepts steps ≤ s.backlog
  | .resets => s.teardown = .joining → s.needed < s.backlog
  | _ => True

instance (s : SessionTeardown) : DecidablePred s.Provided
  | .joins => inferInstanceAs (Decidable (_ ≤ _))
  | .take request _ =>
    match hsetup : Session.setup request._cmd with
    | none => .isTrue fun _ _ h => by simp [hsetup] at h
    | some steps => decidable_of_iff (s.teardown = .joining → accepts steps ≤ s.backlog)
        (imp_congr_right fun _ => by simp [hsetup])
  | .resets => inferInstanceAs (Decidable (_ → _ < _))
  | .connects | .leaves | .checks | .receivesOther | .disconnected | .serve | .fails _ _ | .stops
  | .joined | .destroys | .closes => .isTrue trivial

/-! ## What every request needs -/

/-- Every `try` block accepts one connection. -/
theorem accepts_setup {cmd : Bytes} {steps : List Step} (h : Session.setup cmd = some steps) :
    accepts steps = 1 := by
  unfold Session.setup at h
  split_ifs at h
  · exact Option.some.inj h ▸ by decide
  · exact Option.some.inj h ▸ by decide
  · exact Option.some.inj h ▸ by decide
  · exact Option.some.inj h ▸ by decide
  · exact Option.some.inj h ▸ by decide

theorem accepts_cons_accepting (rest : List Step) :
    accepts (accepting :: rest) = accepts rest + 1 :=
  List.count_cons_self

theorem accepts_cons_of_ne {step : Step} (h : step ≠ accepting) (rest : List Step) :
    accepts (step :: rest) = accepts rest :=
  List.count_cons_of_ne h

/-- What keeps the join from hanging: one connection is needed at most, it waits during the join, and
a worker that is joined will find its status stopped. -/
structure Ready (s : SessionTeardown) : Prop where
  once : s.needed ≤ 1
  owed : s.teardown = .joining → s.needed ≤ s.backlog
  stopped : s.teardown = .joining → s.stopped = true

theorem Ready.initial : Ready initial := by
  constructor
  · exact Nat.zero_le 1
  · nofun
  · nofun

variable {s s' : SessionTeardown}

/-- A worker that goes on without a connection to accept. -/
theorem Ready.idle (h : Ready s) (hneeded : s'.needed = 0) (hteardown : s'.teardown = s.teardown)
    (hstopped : s'.stopped = s.stopped) : Ready s' := by
  refine ⟨hneeded ▸ Nat.zero_le 1, fun _ => hneeded ▸ Nat.zero_le _, fun hjoining => ?_⟩
  rw [hstopped]
  exact h.stopped (hteardown ▸ hjoining)

theorem Ready.take (h : Ready s) {request : IMsg} {o : Outcome}
    (hok : s.Provided (.take request o)) : Ready (s.takeRequest request o) := by
  unfold takeRequest
  split_ifs
  · exact h.idle rfl rfl rfl
  · split
    · rename_i steps hsetup
      refine ⟨?_, fun hjoining => hok hjoining steps hsetup, h.stopped⟩
      exact Nat.le_of_eq (accepts_setup hsetup)
    · refine h.idle ?_ rfl rfl
      unfold needed
      dsimp only
      split_ifs <;> rfl

theorem Ready.serveStep (h : Ready s) {request : IMsg} {step : Step} {rest : List Step}
    (hpc : s.worker = .serving request (step :: rest))
    (hs : s.serveStep request step rest = some s') : Ready s' := by
  obtain ⟨honce, howed, hstopped⟩ := h
  rw [needed, hpc] at honce howed
  dsimp only at honce howed
  unfold SessionTeardown.serveStep at hs
  dsimp only at hs
  split_ifs at hs with hstep
  · subst hstep
    rw [accepts_cons_accepting] at honce howed
    cases hbacklog : s.backlog with
    | zero => simp [hbacklog] at hs
    | succ backlog =>
      simp only [hbacklog, Option.some.injEq] at hs
      subst hs
      refine ⟨Nat.le_of_succ_le honce, fun hjoining => ?_, hstopped⟩
      have hle := howed hjoining
      rw [hbacklog] at hle
      exact Nat.le_of_succ_le_succ hle
  · rw [accepts_cons_of_ne hstep] at honce howed
    obtain rfl := Option.some.inj hs
    exact ⟨honce, howed, hstopped⟩

/-- **One step** of the peer, the worker or the teardown. -/
theorem Ready.step {a : Action} (h : Ready s) (hok : s.Provided a) (hs : step s a = some s') :
    Ready s' := by
  unfold SessionTeardown.step at hs
  rw [Option.ite_none_left_eq_some] at hs
  obtain ⟨-, hs⟩ := hs
  have hneeded {u : SessionTeardown} (hu : u.worker = s.worker) : u.needed = s.needed := by
    rw [needed, needed, hu]
  obtain ⟨honce, howed, hstopped⟩ := id h
  cases a with
  | connects =>
    simp only [Option.ite_none_right_eq_some, Option.some.injEq] at hs
    obtain ⟨-, rfl⟩ := hs
    exact ⟨honce, fun hjoining => Nat.le_succ_of_le (howed hjoining), hstopped⟩
  | leaves =>
    simp only [Option.ite_none_right_eq_some, Option.some.injEq] at hs
    obtain ⟨-, rfl⟩ := hs
    exact ⟨honce, howed, hstopped⟩
  | resets =>
    cases hbacklog : s.backlog with
    | zero => simp [hbacklog] at hs
    | succ backlog =>
      simp only [hbacklog, Option.some.injEq] at hs
      subst hs
      refine ⟨honce, fun hjoining => ?_, hstopped⟩
      have hlt : s.needed < s.backlog := hok hjoining
      rw [hbacklog] at hlt
      exact Nat.le_of_lt_succ hlt
  | checks =>
    simp only [Option.ite_none_right_eq_some, Option.some.injEq] at hs
    obtain ⟨-, rfl⟩ := hs
    refine h.idle ?_ rfl rfl
    unfold needed
    dsimp only
    split_ifs <;> rfl
  | take request o =>
    simp only [Option.ite_none_right_eq_some, Option.some.injEq] at hs
    exact hs.2 ▸ h.take hok
  | receivesOther =>
    simp only [Option.ite_none_right_eq_some, Option.some.injEq] at hs
    exact hs.2 ▸ h.idle rfl rfl rfl
  | disconnected =>
    simp only [Option.ite_none_right_eq_some, Option.some.injEq] at hs
    exact hs.2 ▸ h.idle rfl rfl rfl
  | serve =>
    cases hpc : s.worker with
    | serving request rest =>
      cases rest with
      | nil =>
        simp only [hpc, Option.some.injEq] at hs
        exact hs ▸ h.idle rfl rfl rfl
      | cons step rest =>
        simp only [hpc] at hs
        exact h.serveStep hpc hs
    | _ => simp [hpc] at hs
  | fails what answers =>
    cases hpc : s.worker with
    | serving request rest =>
      cases rest with
      | nil => simp [hpc] at hs
      | cons step rest =>
        simp only [hpc, Option.ite_none_left_eq_some, Option.some.injEq] at hs
        refine hs.2 ▸ h.idle ?_ ?_ ?_
        · unfold handle
          split_ifs <;> rfl
        · unfold handle
          split_ifs <;> rfl
        · unfold handle
          split_ifs <;> rfl
    | _ => simp [hpc] at hs
  | stops =>
    simp only [Option.ite_none_right_eq_some, Option.some.injEq] at hs
    exact hs.2 ▸ ⟨honce, nofun, nofun⟩
  | joins =>
    simp only [Option.ite_none_right_eq_some, Option.some.injEq] at hs
    exact hs.2 ▸ ⟨honce, fun _ => hok, fun _ => rfl⟩
  | joined =>
    simp only [Option.ite_none_right_eq_some, Option.some.injEq] at hs
    exact hs.2 ▸ ⟨honce, nofun, nofun⟩
  | destroys =>
    simp only [Option.ite_none_right_eq_some, Option.some.injEq] at hs
    exact hs.2 ▸ ⟨honce, nofun, nofun⟩
  | closes =>
    simp only [Option.ite_none_right_eq_some, Option.some.injEq] at hs
    exact hs.2 ▸ ⟨honce, nofun, nofun⟩

/-! ## Out of the join -/

/-- The teardown gets out of the join without a connection that the peer has still to open. -/
def Leaves (s : SessionTeardown) : Prop :=
  ∃ as t, (∀ a ∈ as, a.Unaided) ∧ run step s as = some t ∧ t.teardown ≠ .joining

theorem Leaves.of_step {a : Action} (hstep : step s a = some s') (ha : a.Unaided)
    (h : s'.Leaves) : s.Leaves := by
  obtain ⟨as, t, has, hrun, hleft⟩ := h
  exact ⟨a :: as, t, List.forall_mem_cons.mpr ⟨ha, has⟩, run_cons.mpr ⟨s', hstep, hrun⟩, hleft⟩

theorem leaves_ended (hlives : s.processEnded = false) (hjoining : s.teardown = .joining)
    (hended : s.worker = .ended) : s.Leaves := by
  have hstep : step s .joined = some { s with teardown := .destroying } := by
    simp [SessionTeardown.step, hlives, hjoining, hended]
  exact .of_step hstep trivial ⟨[], _, nofun, rfl, nofun⟩

/-- A worker behind its `WaitForConnection` ends: by an exception of the next statement, or because
its status is stopped. -/
theorem leaves_serving (hlives : s.processEnded = false) (hjoining : s.teardown = .joining)
    (hstopped : s.stopped = true) {request : IMsg} {rest : List Step}
    (hpc : s.worker = .serving request rest) (hrest : accepts rest = 0) : s.Leaves := by
  cases rest with
  | nil =>
    have hend : step s .serve = some { s with worker := .check } := by
      simp [SessionTeardown.step, hlives, hpc]
    have hcheck : step { s with worker := .check } .checks = some { s with worker := .ended } := by
      simp only [SessionTeardown.step, hstopped, if_true]
      exact if_neg (hlives ▸ Bool.false_ne_true)
    exact .of_step hend trivial (.of_step hcheck trivial (leaves_ended hlives hjoining rfl))
  | cons step rest =>
    have hstep : step ≠ accepting := by
      rintro rfl
      rw [accepts_cons_accepting] at hrest
      cases hrest
    have hfail : SessionTeardown.step s (.fails [] false) = some (s.handle request [] false) := by
      simp [SessionTeardown.step, hlives, hpc, hstep]
    exact .of_step hfail trivial (leaves_ended rfl hjoining rfl)

/-- A worker in `WaitForConnection` with a connection waiting. -/
theorem leaves_accept (hlives : s.processEnded = false) (hjoining : s.teardown = .joining)
    (hstopped : s.stopped = true) {request : IMsg} {rest : List Step}
    (hpc : s.worker = .serving request (accepting :: rest)) (hrest : accepts rest = 0)
    {backlog : Nat} (hbacklog : s.backlog = backlog + 1) : s.Leaves := by
  have hserve : step s .serve =
      some { s with session := s.session.exec request accepting, worker := .serving request rest,
                    backlog } := by
    simp only [SessionTeardown.step, hlives, Bool.false_eq_true, if_false, hpc,
      SessionTeardown.serveStep, if_true, hbacklog]
  exact .of_step hserve trivial (leaves_serving hlives hjoining hstopped rfl hrest)

theorem not_hung (h : Ready s) : ¬ s.Hung := by
  rintro ⟨hlives, hjoining, ⟨request, rest, hpc⟩, hnever⟩
  obtain ⟨honce, howed, hstopped⟩ := h
  rw [needed, hpc] at honce howed
  dsimp only at honce howed
  rw [accepts_cons_accepting] at honce howed
  have hrest : accepts rest = 0 := by omega
  have hle := howed hjoining
  obtain ⟨backlog, hbacklog⟩ : ∃ backlog, s.backlog = backlog + 1 := ⟨s.backlog - 1, by omega⟩
  obtain ⟨as, t, has, ht, hleft⟩ :=
    leaves_accept hlives hjoining (hstopped hjoining) hpc hrest hbacklog
  exact hleft (hnever as t has ht)

/-- **A session's teardown does not hang** in any run in which every join begins with as many
connections waiting as the worker has still to accept, no request that needs more is read behind
that, and none of those that are needed is reset. -/
theorem stop_never_hangs (as : List Action) (s : SessionTeardown)
    (hrun : run step initial as = some s) (hprovided : Meets step Provided initial as) : ¬ s.Hung :=
  not_hung (run_invariant (fun _ _ _ h hok hs => h.step hok hs) Ready.initial hprovided hrun)

/-! ## Into the hang -/

/-- A join that waits for a worker in `WaitForConnection` with no connection waiting. -/
structure Starved (s : SessionTeardown) : Prop where
  lives : s.processEnded = false
  joining : s.teardown = .joining
  accepts : s.AtAccept
  backlog : s.backlog = 0

/-- Without the peer nobody moves but the peer that leaves. -/
theorem Starved.step {a : Action} (h : s.Starved) (ha : a.Unaided) (hs : step s a = some s') :
    s'.Starved := by
  obtain ⟨hlives, hjoining, ⟨request, rest, hpc⟩, hbacklog⟩ := h
  cases a with
  | connects => exact ha.elim
  | leaves =>
    simp only [SessionTeardown.step, hlives, Bool.false_eq_true, if_false,
      Option.ite_none_right_eq_some, Option.some.injEq] at hs
    exact hs.2 ▸ ⟨hlives, hjoining, ⟨request, rest, hpc⟩, hbacklog⟩
  | _ =>
    simp [SessionTeardown.step, SessionTeardown.serveStep, hlives, hjoining, hpc, hbacklog] at hs

theorem Starved.hung (h : s.Starved) : s.Hung := by
  refine ⟨h.lives, h.joining, h.accepts, fun as t has hrun => ?_⟩
  have hstarved : t.Starved := by
    induction as generalizing s with
    | nil => exact Option.some.inj hrun ▸ h
    | cons a as ih =>
      obtain ⟨ha, has⟩ := List.forall_mem_cons.mp has
      obtain ⟨u, hu, hrun⟩ := run_cons.mp hrun
      exact ih (h.step ha hu) has hrun
  exact hstarved.joining

/-- A worker that is joined with more to accept than waits gets to the `WaitForConnection` that
waits for the peer, as long as its statements throw nothing. -/
theorem starves (hlives : s.processEnded = false) (hjoining : s.teardown = .joining)
    {request : IMsg} {rest : List Step} (hpc : s.worker = .serving request rest)
    (hlt : s.backlog < accepts rest) :
    ∃ as t, (∀ a ∈ as, a.Unaided) ∧ run step s as = some t ∧
      (t.processEnded = true ∨ t.Starved) := by
  induction rest generalizing s with
  | nil => exact absurd hlt (Nat.not_lt_zero _)
  | cons step rest ih =>
    -- the worker takes its next statement, and the others follow from there
    have hnext : ∀ u : SessionTeardown,
        SessionTeardown.step s .serve = some u → u.teardown = .joining →
        u.worker = .serving request rest → u.backlog < accepts rest →
        ∃ as t, (∀ a ∈ as, a.Unaided) ∧ run SessionTeardown.step s as = some t ∧
          (t.processEnded = true ∨ t.Starved) := by
      intro u hu hjoining hpc hlt
      cases hends : u.processEnded with
      | true =>
        refine ⟨[.serve], u, ?_, run_singleton.trans hu, Or.inl hends⟩
        exact List.forall_mem_singleton.mpr trivial
      | false =>
        obtain ⟨as, t, has, hrun, ht⟩ := ih hends hjoining hpc hlt
        exact ⟨.serve :: as, t, List.forall_mem_cons.mpr ⟨trivial, has⟩,
          run_cons.mpr ⟨u, hu, hrun⟩, ht⟩
    by_cases hstep : step = accepting
    · subst hstep
      rw [accepts_cons_accepting] at hlt
      cases hbacklog : s.backlog with
      | zero => exact ⟨[], s, nofun, rfl, Or.inr ⟨hlives, hjoining, ⟨request, rest, hpc⟩, hbacklog⟩⟩
      | succ backlog =>
        rw [hbacklog] at hlt
        refine hnext
          { s with session := s.session.exec request accepting, worker := .serving request rest,
                   backlog } ?_ hjoining rfl (Nat.lt_of_succ_lt_succ hlt)
        simp only [SessionTeardown.step, hlives, Bool.false_eq_true, if_false, hpc,
          SessionTeardown.serveStep, if_true, hbacklog]
    · rw [accepts_cons_of_ne hstep] at hlt
      refine hnext
        { s with session := s.session.exec request step, worker := .serving request rest } ?_
        hjoining rfl hlt
      simp [SessionTeardown.step, hlives, hpc, SessionTeardown.serveStep, hstep]

/-- **What the condition on `joins` leaves out**: a join that begins with less waiting than the
worker has still to accept can go on to hang, if a statement does not end the process first. -/
theorem join_may_hang (hs : step s .joins = some s') (howing : ¬ s.Provided .joins) :
    ∃ as t, (∀ a ∈ as, a.Unaided) ∧ run step s' as = some t ∧ (t.processEnded = true ∨ t.Hung) := by
  unfold SessionTeardown.step at hs
  simp only [Option.ite_none_left_eq_some, Option.ite_none_right_eq_some, Option.some.injEq] at hs
  obtain ⟨hlives, -, rfl⟩ := hs
  have hlt : s.backlog < s.needed := Nat.lt_of_not_le howing
  obtain ⟨request, rest, hpc⟩ : ∃ request rest, s.worker = .serving request rest := by
    cases hpc : s.worker with
    | serving request rest => exact ⟨request, rest, rfl⟩
    | _ =>
      rw [needed, hpc] at hlt
      exact absurd hlt (Nat.not_lt_zero _)
  rw [needed, hpc] at hlt
  obtain ⟨as, t, has, hrun, ht⟩ := starves
    (s := { s with teardown := .joining, stopped := true }) (eq_false_of_ne_true hlives) rfl hpc hlt
  exact ⟨as, t, has, hrun, ht.imp_right Starved.hung⟩

/-- A HID channel is set up and connected, the peer leaves, and the session is stopped. -/
def servedAndStopped : List Action :=
  [.checks, .take (RequestMsg (ascii "SETUP_HID_CHANNEL")) ⟨none, true, (0, 0)⟩, .serve, .connects,
    .leaves, .stops, .joins] ++ .replicate 8 .serve ++ [.checks, .joined, .destroys, .closes]

theorem stop_never_hangs_served :
    ∃ s, run step initial servedAndStopped = some s ∧ s.teardown = .closed ∧ ¬ s.Hung := by
  have hend : (run step initial servedAndStopped).any (fun s => s.teardown = .closed) = true := by
    decide +kernel
  obtain ⟨s, hs, hclosed⟩ := run_of_any hend
  exact ⟨s, hs, hclosed,
    stop_never_hangs servedAndStopped s hs (by decide +kernel)⟩

/-- The request is answered, and the peer does not open the channel. -/
def stoppedAfterResponse : List Action :=
  [.checks, .take (RequestMsg (ascii "SETUP_HID_CHANNEL")) ⟨none, true, (0, 0)⟩, .serve, .stops,
    .joins]

theorem left_peer_hangs_stop :
    ¬ ∀ (as : List Action) (s : SessionTeardown), run step initial as = some s → ¬ s.Hung := by
  intro h
  have hend : (run step initial stoppedAfterResponse).any (fun s => s.processEnded = false ∧
      s.teardown = .joining ∧ s.backlog = 0 ∧
      s.worker = .serving (RequestMsg (ascii "SETUP_HID_CHANNEL"))
        (RedirectChannelFactory.SetupHIDPipeline.map .factory)) = true := by decide +kernel
  obtain ⟨s, hs, hlives, hjoining, hbacklog, hpc⟩ := run_of_any hend
  exact h stoppedAfterResponse s hs (Starved.hung ⟨hlives, hjoining, ⟨_, _, hpc⟩, hbacklog⟩)

end SessionTeardown

end TiraRdp
