import TiraRdp.Redirector.ProjectorAgent
import TiraRdp.Rtsp.RtspSession

/-!
# The CSeqs of an agent's session

`RtspSession::Send` and the heartbeat timer (`common/rtsp/RtspSession.cpp:20-36`, `:106-131`) as
steps of a system, with the six requests of a `ProjectorAgent` and its `ReceivedResponseEvent`. The
counter is taken in two places: by the timer, outside of the lock, for a CSeq that `Send`
overwrites, and by `Send` under `m_Mtx`, where the request is also put on the wire or the socket
throws. The other side may answer any request on the wire, with its CSeq, at any time and as often
as it likes; the agent compares a response with one request at a time.

Ghost fields: how often the counter was advanced, the responses that were taken for a request.

Results: with fewer than `2 ^ 31` advances the requests go out with increasing CSeqs, and a response
is only ever taken for the kind of request that it answers (`cseqs_increase_and_separate`); a whole
`Send` of the system is `RtspSession.Send` (`send_request`, `send_response`).
-/

namespace TiraRdp

open Lib Lib.Lts

/-- Who sends a request. -/
inductive Origin where
  | heartbeat
  | agent (k : RequestKind)
  | other
  deriving Repr, DecidableEq

/-- How far the holder of `m_Mtx` is in `Send`. -/
inductive SendPc where
  | request (o : Origin)
  | numbered (o : Origin) (cseq : Int)
  | response

structure AgentSession where
  m_CSeq : Int
  m_Mtx : Option SendPc
  /-- the timer has its own CSeq and calls `Send` next -/
  heartbeat : Bool
  requests : RequestKind → Int
  wire : List (Origin × Int)
  /-- the request whose response is being compared, with the kinds that are left -/
  comparing : Option ((Origin × Int) × List RequestKind)
  increments : Nat
  taken : List (Origin × RequestKind)

namespace AgentSession

/-- A session after `Start`; no request was sent, so their CSeqs are those of `IMsg()`. -/
def initial : AgentSession where
  m_CSeq := 0
  m_Mtx := none
  heartbeat := false
  requests k := (RequestMsg k.cmd)._cseq
  wire := []
  comparing := none
  increments := 0
  taken := []

inductive Action where
  /-- `request.SetCSeq(m_CSeq++)` of the timer -/
  | heartbeatCSeq
  /-- a request enters `Send` -/
  | lock (o : Origin)
  /-- `msg.SetCSeq(m_CSeq++)` -/
  | number
  | transmit (goesOut : Bool)
  /-- a response enters `Send` -/
  | lockResponse
  | transmitResponse
  /-- the response to request `i` on the wire arrives -/
  | receive (i : Nat)
  | compare

/-- `msg.SetCSeq(cseq)`, as far as `msg` is a request of the agent. -/
def SetCSeq (requests : RequestKind → Int) (o : Origin) (cseq : Int) : RequestKind → Int :=
  match o with
  | .agent k => Function.update requests k cseq
  | .heartbeat => requests
  | .other => requests

def step (s : AgentSession) : Action → Option AgentSession
  | .heartbeatCSeq =>
    if s.heartbeat then none
    else some { s with
      m_CSeq := i32 (s.m_CSeq + 1), heartbeat := true, increments := s.increments + 1 }
  | .lock o =>
    match s.m_Mtx with
    | some _ => none
    | none =>
      if o = .heartbeat then
        if s.heartbeat then some { s with m_Mtx := some (.request o), heartbeat := false } else none
      else some { s with m_Mtx := some (.request o) }
  | .number =>
    match s.m_Mtx with
    | some (.request o) =>
      some { s with
        m_Mtx := some (.numbered o s.m_CSeq)
        requests := SetCSeq s.requests o s.m_CSeq
        m_CSeq := i32 (s.m_CSeq + 1)
        increments := s.increments + 1 }
    | _ => none
  | .transmit goesOut =>
    match s.m_Mtx with
    | some (.numbered o cseq) =>
      some { s with m_Mtx := none, wire := if goesOut then s.wire ++ [(o, cseq)] else s.wire }
    | _ => none
  | .lockResponse =>
    match s.m_Mtx with
    | some _ => none
    | none => some { s with m_Mtx := some .response }
  | .transmitResponse =>
    match s.m_Mtx with
    | some .response => some { s with m_Mtx := none }
    | _ => none
  | .receive i =>
    match s.comparing, s.wire[i]? with
    | none, some e => some { s with comparing := some (e, RequestKind.all) }
    | _, _ => none
  | .compare =>
    match s.comparing with
    | none => none
    | some (e, rest) =>
      match compareNext s.requests e.2 rest with
      | .same k => some { s with comparing := none, taken := s.taken ++ [(e.1, k)] }
      | .differs rest => some { s with comparing := some (e, rest) }
      | .ended => some { s with comparing := none }

/-! ## The discipline -/

/-- The request that has its CSeq and is not on the wire yet. -/
def pending (s : AgentSession) : List (Origin × Int) :=
  match s.m_Mtx with
  | some (.numbered o cseq) => [(o, cseq)]
  | _ => []

/-- The invariant, as long as the counter has not overflowed. -/
structure Disciplined (s : AgentSession) : Prop where
  counter : s.m_CSeq = s.increments
  increasing : (s.wire ++ s.pending).Pairwise fun e e' => e.2 < e'.2
  below : ∀ e ∈ s.wire ++ s.pending, 0 ≤ e.2 ∧ e.2 < s.m_CSeq
  requests_below : ∀ k, s.requests k < s.m_CSeq
  own : ∀ e ∈ s.wire ++ s.pending, ∀ k, s.requests k = e.2 → e.1 = .agent k
  comparing : ∀ e rest, s.comparing = some (e, rest) → e ∈ s.wire
  taken : ∀ e ∈ s.taken, e.1 = .agent e.2

theorem Disciplined.initial : Disciplined initial where
  counter := rfl
  increasing := List.Pairwise.nil
  below _ h := absurd h List.not_mem_nil
  requests_below _ := by
    have h : (-1 : Int) < 0 := by decide
    exact h
  own _ h := absurd h List.not_mem_nil
  comparing _ _ h := by cases h
  taken _ h := absurd h List.not_mem_nil

theorem SetCSeq_apply (requests : RequestKind → Int) (o : Origin) (cseq : Int) (k : RequestKind) :
    SetCSeq requests o cseq k = if o = .agent k then cseq else requests k := by
  cases o with
  | heartbeat => rfl
  | other => rfl
  | agent k' =>
    by_cases hk : k = k'
    · subst hk
      simp [SetCSeq]
    · have hk' : Origin.agent k' ≠ .agent k := fun h => hk (Origin.agent.inj h).symm
      simp [SetCSeq, Function.update_of_ne hk, hk']

variable {s t : AgentSession}

/-- One more advance of the counter, still below the overflow. -/
theorem Disciplined.next (h : Disciplined s) (hbound : s.increments + 1 < 2 ^ 31) :
    i32 (s.m_CSeq + 1) = s.m_CSeq + 1 := by
  rw [h.counter]
  apply i32_of_lt <;> omega

/-- The counter only goes up, and everything else about requests is as it was. -/
theorem Disciplined.advance (h : Disciplined s) (hbound : s.increments + 1 < 2 ^ 31)
    (hcounter : t.m_CSeq = i32 (s.m_CSeq + 1)) (hincrements : t.increments = s.increments + 1)
    (hwire : t.wire ++ t.pending = s.wire ++ s.pending) (hrequests : t.requests = s.requests)
    (hcomparing : t.comparing = s.comparing) (hwire' : t.wire = s.wire)
    (htaken : t.taken = s.taken) : Disciplined t := by
  rw [h.next hbound] at hcounter
  constructor
  · rw [hcounter, hincrements, h.counter]
    rfl
  · rw [hwire]
    exact h.increasing
  · rw [hwire]
    intro e he
    have hbelow := h.below e he
    omega
  · intro k
    have hbelow := h.requests_below k
    rw [hrequests]
    omega
  · rw [hwire, hrequests]
    exact h.own
  · rw [hcomparing, hwire']
    exact h.comparing
  · rw [htaken]
    exact h.taken

/-- A step of the lock that puts nothing on the wire or only what was pending. -/
theorem Disciplined.frame (h : Disciplined s) (hcounter : t.m_CSeq = s.m_CSeq)
    (hincrements : t.increments = s.increments) (hrequests : t.requests = s.requests)
    (hwire : (t.wire ++ t.pending).Sublist (s.wire ++ s.pending))
    (hcomparing : t.comparing = s.comparing) (hkept : ∀ e ∈ s.wire, e ∈ t.wire)
    (htaken : t.taken = s.taken) : Disciplined t where
  counter := by rw [hcounter, hincrements, h.counter]
  increasing := h.increasing.sublist hwire
  below e he := by
    rw [hcounter]
    exact h.below e (hwire.subset he)
  requests_below k := by
    rw [hrequests, hcounter]
    exact h.requests_below k
  own e he := by
    rw [hrequests]
    exact h.own e (hwire.subset he)
  comparing e rest he := hkept e (h.comparing e rest (hcomparing ▸ he))
  taken := by
    rw [htaken]
    exact h.taken

theorem Disciplined.heartbeatCSeq (h : Disciplined s) (hbound : t.increments < 2 ^ 31)
    (hstep : s.step .heartbeatCSeq = some t) : Disciplined t := by
  simp only [step] at hstep
  split at hstep
  · cases hstep
  · obtain rfl := Option.some.inj hstep
    exact h.advance hbound rfl rfl rfl rfl rfl rfl rfl

theorem Disciplined.number (h : Disciplined s) (hbound : t.increments < 2 ^ 31)
    (hstep : s.step .number = some t) : Disciplined t := by
  simp only [step] at hstep
  split at hstep
  · rename_i o hlock
    obtain rfl := Option.some.inj hstep
    have hpending : s.pending = [] := by rw [pending, hlock]
    have hnext : i32 (s.m_CSeq + 1) = s.m_CSeq + 1 := h.next hbound
    have hcounter := h.counter
    have hbelow : ∀ e ∈ s.wire, 0 ≤ e.2 ∧ e.2 < s.m_CSeq := fun e he =>
      h.below e (List.mem_append_left _ he)
    have hincreasing := h.increasing
    rw [hpending, List.append_nil] at hincreasing
    constructor
    · show i32 (s.m_CSeq + 1) = ((s.increments + 1 : Nat) : Int)
      rw [hnext, hcounter]
      rfl
    · refine List.pairwise_append.mpr ⟨hincreasing, List.pairwise_singleton _ _, ?_⟩
      intro e he e' he'
      rw [List.mem_singleton.mp he']
      exact (hbelow e he).2
    · intro e he
      show 0 ≤ e.2 ∧ e.2 < i32 (s.m_CSeq + 1)
      rw [hnext]
      rcases List.mem_append.mp he with he | he
      · have := hbelow e he
        omega
      · rw [List.mem_singleton.mp he]
        dsimp only
        omega
    · intro k
      show SetCSeq s.requests o s.m_CSeq k < i32 (s.m_CSeq + 1)
      have hk := h.requests_below k
      rw [hnext, SetCSeq_apply]
      split <;> omega
    · intro e he k hk
      have hk' : SetCSeq s.requests o s.m_CSeq k = e.2 := hk
      rw [SetCSeq_apply] at hk'
      rcases List.mem_append.mp he with he | he
      · -- a request that is on the wire has not got the new CSeq
        have hlt := (hbelow e he).2
        split at hk'
        · omega
        · exact h.own e (List.mem_append_left _ he) k hk'
      · rw [List.mem_singleton.mp he] at hk' ⊢
        split at hk'
        · assumption
        · have hlt := h.requests_below k
          dsimp only at hk'
          omega
    · exact h.comparing
    · exact h.taken
  · cases hstep

theorem Disciplined.transmit (h : Disciplined s) {goesOut : Bool}
    (hstep : s.step (.transmit goesOut) = some t) : Disciplined t := by
  simp only [step] at hstep
  split at hstep
  · rename_i o cseq hlock
    obtain rfl := Option.some.inj hstep
    have hpending : s.pending = [(o, cseq)] := by rw [pending, hlock]
    cases goesOut with
    | true =>
      refine h.frame rfl rfl rfl ?_ rfl (fun e he => List.mem_append_left _ he) rfl
      rw [hpending]
      exact (List.append_nil (s.wire ++ [(o, cseq)])).symm ▸ List.Sublist.refl _
    | false =>
      refine h.frame rfl rfl rfl ?_ rfl (fun e he => he) rfl
      exact (List.append_nil s.wire).symm ▸ List.sublist_append_left _ _
  · cases hstep

theorem Disciplined.compare (h : Disciplined s) (hstep : s.step .compare = some t) :
    Disciplined t := by
  simp only [step] at hstep
  cases hcmp : s.comparing with
  | none => simp [hcmp] at hstep
  | some c =>
    obtain ⟨e, rest⟩ := c
    have he := h.comparing e rest hcmp
    simp only [hcmp] at hstep
    cases hnext : compareNext s.requests e.2 rest with
    | same k =>
      simp only [hnext] at hstep
      obtain rfl := Option.some.inj hstep
      have hk := (compareNext_eq_same.mp hnext).1
      refine { h with comparing := nofun, taken := ?_ }
      intro e' he'
      rcases List.mem_append.mp he' with he' | he'
      · exact h.taken e' he'
      · rw [List.mem_singleton.mp he']
        exact h.own e (List.mem_append_left _ he) k hk
    | differs rest' =>
      simp only [hnext] at hstep
      obtain rfl := Option.some.inj hstep
      refine { h with comparing := ?_ }
      intro e' rest' heq
      obtain ⟨rfl, -⟩ := Prod.mk.inj (Option.some.inj heq)
      exact he
    | ended =>
      simp only [hnext] at hstep
      obtain rfl := Option.some.inj hstep
      exact { h with comparing := nofun }

/-- The steps that only move the lock: entering `Send`, and leaving it with a response. -/
def Relocks : Action → Prop
  | .lock _ => True
  | .lockResponse => True
  | .transmitResponse => True
  | .heartbeatCSeq => False
  | .number => False
  | .transmit _ => False
  | .receive _ => False
  | .compare => False

theorem step_relock {a : Action} (hstep : s.step a = some t) (ha : Relocks a) :
    ∃ pc beat, t = { s with m_Mtx := pc, heartbeat := beat } ∧ s.pending = [] ∧ t.pending = [] := by
  cases a with
  | lock o =>
    simp only [step] at hstep
    split at hstep
    · cases hstep
    · rename_i hlock
      have hpending : s.pending = [] := by rw [pending, hlock]
      split at hstep
      · split at hstep
        · obtain rfl := Option.some.inj hstep
          exact ⟨_, _, rfl, hpending, rfl⟩
        · cases hstep
      · obtain rfl := Option.some.inj hstep
        exact ⟨_, _, rfl, hpending, rfl⟩
  | lockResponse =>
    simp only [step] at hstep
    split at hstep
    · cases hstep
    · rename_i hlock
      have hpending : s.pending = [] := by rw [pending, hlock]
      obtain rfl := Option.some.inj hstep
      exact ⟨_, _, rfl, hpending, rfl⟩
  | transmitResponse =>
    simp only [step] at hstep
    split at hstep
    · rename_i hlock
      have hpending : s.pending = [] := by rw [pending, hlock]
      obtain rfl := Option.some.inj hstep
      exact ⟨_, _, rfl, hpending, rfl⟩
    · cases hstep
  | heartbeatCSeq => exact ha.elim
  | number => exact ha.elim
  | transmit goesOut => exact ha.elim
  | receive i => exact ha.elim
  | compare => exact ha.elim

/-- What the worker does while it takes a response in. -/
theorem step_receive {i : Nat} (hstep : s.step (.receive i) = some t) :
    ∃ e, s.wire[i]? = some e ∧ t = { s with comparing := some (e, RequestKind.all) } := by
  simp only [step] at hstep
  split at hstep
  · rename_i e _ hi
    exact ⟨e, hi, (Option.some.inj hstep).symm⟩
  · cases hstep

theorem increments_le {a : Action} (hstep : s.step a = some t) : s.increments ≤ t.increments := by
  have hrelock : Relocks a → s.increments ≤ t.increments := by
    intro ha
    obtain ⟨pc, beat, rfl, -, -⟩ := step_relock hstep ha
    exact Nat.le_refl _
  cases a with
  | lock o => exact hrelock trivial
  | lockResponse => exact hrelock trivial
  | transmitResponse => exact hrelock trivial
  | heartbeatCSeq =>
    simp only [step] at hstep
    split at hstep
    · cases hstep
    · obtain rfl := Option.some.inj hstep
      exact Nat.le_succ s.increments
  | number =>
    simp only [step] at hstep
    split at hstep
    · obtain rfl := Option.some.inj hstep
      exact Nat.le_succ s.increments
    · cases hstep
  | transmit goesOut =>
    simp only [step] at hstep
    split at hstep
    · exact Option.some.inj hstep ▸ Nat.le_refl _
    · cases hstep
  | receive i =>
    obtain ⟨e, -, rfl⟩ := step_receive hstep
    exact Nat.le_refl _
  | compare =>
    simp only [step] at hstep
    split at hstep
    · cases hstep
    · split at hstep
      · exact Option.some.inj hstep ▸ Nat.le_refl _
      · exact Option.some.inj hstep ▸ Nat.le_refl _
      · exact Option.some.inj hstep ▸ Nat.le_refl _

theorem Disciplined.relock {a : Action} (h : Disciplined s) (hstep : s.step a = some t)
    (ha : Relocks a) : Disciplined t := by
  obtain ⟨pc, beat, rfl, hpending, hpending'⟩ := step_relock hstep ha
  refine h.frame rfl rfl rfl ?_ rfl (fun _ he => he) rfl
  rw [hpending, hpending']

/-- **One step** of any thread. -/
theorem Disciplined.step {a : Action} (h : Disciplined s) (hbound : t.increments < 2 ^ 31)
    (hstep : s.step a = some t) : Disciplined t := by
  cases a with
  | heartbeatCSeq => exact h.heartbeatCSeq hbound hstep
  | number => exact h.number hbound hstep
  | transmit goesOut => exact h.transmit hstep
  | compare => exact h.compare hstep
  | lock o => exact h.relock hstep trivial
  | lockResponse => exact h.relock hstep trivial
  | transmitResponse => exact h.relock hstep trivial
  | receive i =>
    obtain ⟨e, hi, rfl⟩ := step_receive hstep
    refine { h with comparing := ?_ }
    intro e' rest' heq
    obtain ⟨rfl, -⟩ := Prod.mk.inj (Option.some.inj heq)
    exact List.mem_of_getElem? hi

/-- The invariant holds wherever the counter has not overflowed. -/
theorem disciplined_of_run {as : List Action} (hrun : run step initial as = some s)
    (hbound : s.increments < 2 ^ 31) : Disciplined s := by
  have hinv : ∀ s a t, (s.increments < 2 ^ 31 → Disciplined s) →
      AgentSession.step s a = some t → t.increments < 2 ^ 31 → Disciplined t := by
    intro s a t h hstep hb
    exact (h (Nat.lt_of_le_of_lt (increments_le hstep) hb)).step hb hstep
  exact run_invariant_all hinv (fun _ => Disciplined.initial) hrun hbound

/-- **The CSeq discipline.** In every run with fewer than `2 ^ 31` advances of the counter the
requests on the wire have increasing CSeqs, every response that was taken for a request of the agent
answers a request of that kind, and no step of a response moves the counter. -/
theorem cseqs_increase_and_separate (as : List Action) (hrun : run step initial as = some s)
    (hbound : s.increments < 2 ^ 31) :
    (s.wire.Pairwise fun e e' => e.2 < e'.2) ∧ (∀ e ∈ s.taken, e.1 = .agent e.2) ∧
      ∀ t, s.step .lockResponse = some t ∨ s.step .transmitResponse = some t →
        t.m_CSeq = s.m_CSeq := by
  have h := disciplined_of_run hrun hbound
  refine ⟨(List.pairwise_append.mp h.increasing).1, h.taken, ?_⟩
  rintro t (hstep | hstep)
  · obtain ⟨pc, beat, rfl, -, -⟩ := step_relock hstep trivial
    rfl
  · obtain ⟨pc, beat, rfl, -, -⟩ := step_relock hstep trivial
    rfl

/-- A heartbeat and a screen request, both answered. -/
theorem cseqs_increase_and_separate_screen :
    ∃ s, run step initial [.heartbeatCSeq, .lock .heartbeat, .number, .transmit true,
        .lock (.agent .screen), .number, .transmit true, .receive 0, .compare, .compare, .compare,
        .compare, .compare, .compare, .compare, .receive 1, .compare, .compare] = some s ∧
      s.wire = [(.heartbeat, 1), (.agent .screen, 2)] ∧ s.taken = [(.agent .screen, .screen)] ∧
      ∀ e ∈ s.taken, e.1 = .agent e.2 := by
  have hobs : (run step initial [.heartbeatCSeq, .lock .heartbeat, .number, .transmit true,
      .lock (.agent .screen), .number, .transmit true, .receive 0, .compare, .compare, .compare,
      .compare, .compare, .compare, .compare, .receive 1, .compare, .compare]).map
        (fun s => (s.increments, s.wire, s.taken)) =
      some (3, [(.heartbeat, 1), (.agent .screen, 2)], [(.agent .screen, .screen)]) := by decide
  obtain ⟨s, hrun, heq⟩ := Option.map_eq_some_iff.mp hobs
  obtain ⟨hincrements, heq⟩ := Prod.mk.inj heq
  obtain ⟨hwire, htaken⟩ := Prod.mk.inj heq
  have hbound : s.increments < 2 ^ 31 := by
    rw [hincrements]
    decide
  exact ⟨s, hrun, hwire, htaken, (cseqs_increase_and_separate _ hrun hbound).2.1⟩

/-! ## `RtspSession.Send` -/

/-- **A whole `Send` of a request** is that of `RtspSession`: the same counter, and the CSeq on the
wire is the one in the bytes given to the socket. -/
theorem send_request {r : RtspSession} {msg : IMsg} {o : Origin} (env : SocketEnv)
    (hcseq : r.m_CSeq = s.m_CSeq) (hmsg : msg._type = RTSP_TYPE_REQ)
    (hrun : run step s [.lock o, .number, .transmit true] = some t) :
    t.m_CSeq = (r.Send env msg).2.m_CSeq ∧ t.wire = s.wire ++ [(o, r.m_CSeq)] ∧
      (r.Send env msg).2.m_Socket =
        (r.m_Socket.Send env { msg with _cseq := r.m_CSeq }.ToString).2 := by
  have hreq : (msg._type == RTSP_TYPE_REQ) = true := by rw [hmsg, beq_self_eq_true]
  obtain ⟨s₁, hlock, hrun⟩ := run_cons.mp hrun
  obtain ⟨s₂, hnumber, hrun⟩ := run_cons.mp hrun
  obtain ⟨s₃, htransmit, hrun⟩ := run_cons.mp hrun
  obtain rfl := Option.some.inj hrun
  have hlocked : s₁.m_Mtx = some (.request o) ∧ s₁.m_CSeq = s.m_CSeq ∧ s₁.wire = s.wire := by
    simp only [step] at hlock
    split at hlock
    · cases hlock
    · split at hlock
      · rename_i ho
        split at hlock
        · obtain rfl := Option.some.inj hlock
          exact ⟨rfl, rfl, rfl⟩
        · cases hlock
      · obtain rfl := Option.some.inj hlock
        exact ⟨rfl, rfl, rfl⟩
  obtain ⟨hm, hc, hw⟩ := hlocked
  simp only [step, hm] at hnumber
  obtain rfl := Option.some.inj hnumber
  obtain rfl := Option.some.inj htransmit
  simp only [RtspSession.Send, hreq, if_true, hc, hw, hcseq, and_self]

/-- **A whole `Send` of a response** is that of `RtspSession`, which leaves the counter. -/
theorem send_response {r : RtspSession} (cseq : Int) (result : Bool) (data : Bytes)
    (env : SocketEnv) (hcseq : r.m_CSeq = s.m_CSeq)
    (hrun : run step s [.lockResponse, .transmitResponse] = some t) :
    t.m_CSeq = (r.Send env (ResponseMsg cseq result data)).2.m_CSeq ∧ t.wire = s.wire ∧
      (r.Send env (ResponseMsg cseq result data)).2.m_Socket =
        (r.m_Socket.Send env (ResponseMsg cseq result data).ToString).2 := by
  have hresp : ((ResponseMsg cseq result data)._type == RTSP_TYPE_REQ) = false := by
    cases result with
    | true =>
      have h : (RTSP_TYPE_RESP ++ RTSP_RESPONSE_OK == RTSP_TYPE_REQ) = false := by decide
      exact h
    | false =>
      have h : (RTSP_TYPE_RESP ++ RTSP_RESPONSE_FAIL == RTSP_TYPE_REQ) = false := by decide
      exact h
  obtain ⟨s₁, hlock, hrun⟩ := run_cons.mp hrun
  obtain ⟨s₂, htransmit, hrun⟩ := run_cons.mp hrun
  obtain rfl := Option.some.inj hrun
  simp only [step] at hlock
  split at hlock
  · cases hlock
  · obtain rfl := Option.some.inj hlock
    obtain rfl := Option.some.inj htransmit
    simp only [RtspSession.Send, hresp, Bool.false_eq_true, if_false, hcseq, and_self]

end AgentSession

end TiraRdp
