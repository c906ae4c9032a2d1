import TiraRdp.Projector.Session
import TiraRdp.Redirector.ProjectorAgent

/-!
# Redirector and projector together

The two sides of the media channels as one system: a `ProjectorAgent` under the thread of
`Redirector::Start` (`redirector-client/Redirector.cpp:112`, `:118-172`), which asks for the
resolution and sets up the five channels one after the other, and a `Session` that serves it. The
RTSP connection is the two lists of messages sent, read in order; the listening port is the list of
connections opened, accepted in order. A connection carries nothing that tells what it is for: the
model knows it by the kind of the operation that opened it.

The projector takes one statement of its callback at a time, none of which fails. On the side of the
redirector anything may fail, which ends its run.

Result: every connection that is accepted goes to the pipeline of its kind
(`connections_paired`).
-/

namespace TiraRdp

open Lib Lib.Lts

/-- The kind of the channel that a member is made for. -/
def Member.channel : Member → Option RequestKind
  | .m_RdpSource => some .screen
  | .m_HIDRedirector => some .hid
  | .m_RdpDRSource => some .dr
  | .m_AudioSource => some .audioPlayback
  | .m_TouchAndPen => some .touchAndPen
  | .m_RDPProjectorPipeline => none
  | .m_D2DRender => none
  | .m_AudioPlayback => none
  | .m_DeviceRedirecr => none

structure Pairing where
  agent : ProjectorAgent
  /-- what the redirector's thread has still to do, the operation it is in included -/
  program : List RequestKind
  session : Session
  /-- how many of the agent's requests the projector has read -/
  taken : Nat
  /-- how many of the projector's responses the agent has read -/
  delivered : Nat
  serving : Option (IMsg × List Step)
  /-- how many of the agent's connections were accepted, and the last of them -/
  accepted : Nat
  socket : Option RequestKind
  /-- the connections by what they were opened for, each with the member it was given to -/
  attached : List (Option RequestKind × Member)

namespace Pairing

def initial : Pairing where
  agent := .initial
  program := RequestKind.all
  session := .initial
  taken := 0
  delivered := 0
  serving := none
  accepted := 0
  socket := none
  attached := []

inductive Action where
  /-- the redirector's thread calls its next operation -/
  | call (connects : Bool)
  | wake (timeout connects : Bool)
  | heartbeatCSeq
  | heartbeatSend (goesOut : Bool)
  /-- the agent's worker reads the next response -/
  | deliver
  | compare
  | record
  /-- the projector's worker reads the next request -/
  | take (metrics : Int × Int)
  /-- the next statement of the callback, or its end -/
  | serve

/-- The redirector's thread after a step of its operation: still in it, past it, or out of its run
by an exception. -/
def advance (s : Pairing) (agent : ProjectorAgent) : Pairing :=
  { s with
    agent
    program :=
      if agent.waiting ≠ [] then s.program
      else if s.agent.returned.length < agent.returned.length then s.program.tail
      else [] }

/-- The request is read, and answered at once unless it has a `try` block. -/
def takeRequest (s : Pairing) (request : IMsg) (metrics : Int × Int) : Pairing :=
  if request._cmd = RTSP_TYPE_HEART_BEAT then
    { s with taken := s.taken + 1, session := s.session.Send (ResponseMsg request._cseq true []) }
  else
    match Session.setup request._cmd with
    | some steps => { s with taken := s.taken + 1, serving := some (request, steps) }
    | none =>
      { s with
        taken := s.taken + 1
        session := s.session.ReceivedRequestEvent request ⟨none, true, metrics⟩ }

/-- One statement. `WaitForConnection` waits for a connection; the objects of a channel are made
with the socket accepted last. -/
def serveStep (s : Pairing) (request : IMsg) (step : Step) (rest : List Step) : Option Pairing :=
  let t := { s with session := s.session.exec request step, serving := some (request, rest) }
  match step with
  | .factory .WaitForConnection =>
    match s.agent.connected[s.accepted]? with
    | none => none
    | some k => some { t with accepted := s.accepted + 1, socket := some k }
  | .factory (.make m) =>
    if m.channel.isSome then some { t with attached := s.attached ++ [(s.socket, m)] } else some t
  | _ => some t

def step (s : Pairing) : Action → Option Pairing
  | .call connects =>
    match s.agent.waiting, s.program with
    | [], k :: _ => (s.agent.step (.issue k connects)).map s.advance
    | _, _ => none
  | .wake timeout connects => (s.agent.step (.wake 0 timeout connects)).map s.advance
  | .heartbeatCSeq => (s.agent.step .heartbeatCSeq).map fun agent => { s with agent }
  | .heartbeatSend goesOut =>
    (s.agent.step (.heartbeatSend goesOut)).map fun agent => { s with agent }
  | .deliver =>
    match s.session.sent[s.delivered]? with
    | none => none
    | some response =>
      (s.agent.step (.receive response)).map fun agent =>
        { s with agent, delivered := s.delivered + 1 }
  | .compare => (s.agent.step .compare).map fun agent => { s with agent }
  | .record => (s.agent.step .record).map fun agent => { s with agent }
  | .take metrics =>
    if s.session.ended.isSome then none
    else
      match s.serving, s.agent.sent[s.taken]? with
      | none, some request => some (s.takeRequest request metrics)
      | _, _ => none
  | .serve =>
    if s.session.ended.isSome then none
    else
      match s.serving with
      | none => none
      | some (_, []) => some { s with serving := none }
      | some (request, step :: rest) => s.serveStep request step rest

/-! ## The redirector's side -/

/-- The kinds that open a connection. -/
def channels (program : List RequestKind) : List RequestKind := program.filter (· ≠ .resolution)

/-- The order in which the redirector opens its channels. -/
def order : List RequestKind := channels RequestKind.all

/-- A request that the projector answers with a connection to be made. -/
def isChannel (request : IMsg) : Bool := (Session.setup request._cmd).isSome

/-- The commands of the channel requests on the wire. -/
def asked (agent : ProjectorAgent) : List Bytes := (agent.sent.filter isChannel).map IMsg._cmd

/-- Where the redirector's thread is in its program. -/
inductive Phase (agent : ProjectorAgent) (program : List RequestKind) : Prop where
  | ended (hwaiting : agent.waiting = []) (hprogram : program = [])
  | between (hwaiting : agent.waiting = []) (horder : agent.connected ++ channels program = order)
      (hasked : asked agent = agent.connected.map RequestKind.cmd)
  | inside (k : RequestKind) (cseq : Int) (rest : List RequestKind)
      (hwaiting : agent.waiting = [(k, cseq)]) (hprogram : program = k :: rest)
      (horder : agent.connected ++ channels program = order)
      (hasked : asked agent = (agent.connected ++ channels [k]).map RequestKind.cmd)

/-- The invariant of the redirector's side: requests and connections keep to the order. -/
structure Redirects (agent : ProjectorAgent) (program : List RequestKind) : Prop where
  cmds : ∀ k, (agent.requests k)._cmd = k.cmd
  asked : asked agent <+: order.map RequestKind.cmd
  connected : agent.connected <+: order
  phase : Phase agent program

theorem isSome_setup (k : RequestKind) :
    (Session.setup k.cmd).isSome = decide (k ≠ .resolution) := by
  cases k <;> decide

section Redirects

variable {agent agent' : ProjectorAgent} {program rest : List RequestKind} {k : RequestKind}

/-- One more request on the wire. -/
theorem asked_concat {request : IMsg} (hsent : agent'.sent = agent.sent ++ [request])
    (hcmd : request._cmd = k.cmd) :
    asked agent' = asked agent ++ (channels [k]).map RequestKind.cmd := by
  have hchannel : isChannel request = decide (k ≠ .resolution) := by
    rw [← isSome_setup, ← hcmd]
    rfl
  rw [asked, hsent, List.filter_append, List.map_append, asked]
  by_cases hk : k = .resolution
  · simp [channels, hchannel, hk]
  · simp [channels, hchannel, hk, hcmd]

/-- A step that is none of the thread's own. -/
theorem Redirects.background (h : Redirects agent program)
    (hcmds : agent'.requests = agent.requests)
    (hwaiting : agent'.waiting = agent.waiting) (hconnected : agent'.connected = agent.connected)
    (hasked : Pairing.asked agent' = Pairing.asked agent) : Redirects agent' program where
  cmds := hcmds ▸ h.cmds
  asked := hasked ▸ h.asked
  connected := hconnected ▸ h.connected
  phase := by
    cases h.phase with
    | ended hw hp => exact .ended (hwaiting.trans hw) hp
    | between hw ho ha =>
      exact .between (hwaiting.trans hw) (hconnected ▸ ho) (by rw [hasked, hconnected, ha])
    | inside k cseq rest hw hp ho ha =>
      exact .inside k cseq rest (hwaiting.trans hw) hp (hconnected ▸ ho)
        (by rw [hasked, hconnected, ha])

theorem channels_cons (k : RequestKind) (rest : List RequestKind) :
    channels (k :: rest) = channels [k] ++ channels rest :=
  List.filter_append [k] rest

/-- The connection of the operation at hand is the next one in order. -/
theorem connected_prefix (horder : agent.connected ++ channels (k :: rest) = order) :
    agent.connected ++ channels [k] <+: order :=
  ⟨channels rest, by rw [List.append_assoc, ← channels_cons, horder]⟩

/-- What an operation comes to behind its wait. -/
theorem finish_cases (agent : ProjectorAgent) (k : RequestKind) (cseq : Int) (connects : Bool) :
    agent.finish k cseq connects = agent ∨
      ∃ e, agent.finish k cseq connects =
        { agent with
          connected := agent.connected ++ channels [k], returned := agent.returned ++ [e] } := by
  unfold ProjectorAgent.finish
  split
  · split
    · rename_i hk
      subst hk
      exact Or.inr ⟨_, by simp [channels]; rfl⟩
    · rename_i hk
      split
      · exact Or.inr ⟨_, by simp [channels, hk]; rfl⟩
      · exact Or.inl rfl
  · exact Or.inl rfl

theorem finish_waiting (agent : ProjectorAgent) (k : RequestKind) (cseq : Int) (connects : Bool) :
    (agent.finish k cseq connects).waiting = agent.waiting := by
  rcases finish_cases agent k cseq connects with heq | ⟨e, heq⟩ <;> rw [heq]

/-- The thread has done with an operation, one way or the other. -/
theorem Redirects.finished (agent : ProjectorAgent)
    (hcmds : ∀ k, (agent.requests k)._cmd = k.cmd)
    (hwaiting : agent.waiting = []) (horder : agent.connected ++ channels (k :: rest) = order)
    (hasked : Pairing.asked agent = (agent.connected ++ channels [k]).map RequestKind.cmd)
    (cseq : Int) (connects : Bool) :
    Redirects (agent.finish k cseq connects)
      (if agent.returned.length < (agent.finish k cseq connects).returned.length then rest
        else []) := by
  have hprefix := connected_prefix horder
  have hprefix' : Pairing.asked agent <+: order.map RequestKind.cmd := hasked ▸ hprefix.map _
  rcases finish_cases agent k cseq connects with heq | ⟨e, heq⟩
  · rw [heq, if_neg (Nat.lt_irrefl _)]
    exact ⟨hcmds, hprefix', (List.prefix_append _ _).trans hprefix, .ended hwaiting rfl⟩
  · rw [heq, if_pos (by simp)]
    refine ⟨hcmds, hprefix', hprefix, .between hwaiting ?_ hasked⟩
    rw [List.append_assoc, ← channels_cons, horder]

theorem Redirects.call (h : Redirects agent (k :: rest)) (hwaiting : agent.waiting = [])
    {connects : Bool} (hstep : agent.step (.issue k connects) = some agent') :
    Redirects agent' (if agent'.waiting ≠ [] then k :: rest
      else if agent.returned.length < agent'.returned.length then rest else []) := by
  have hphase : agent.connected ++ channels (k :: rest) = order ∧
      Pairing.asked agent = agent.connected.map RequestKind.cmd := by
    cases h.phase with
    | ended hw hp => cases hp
    | between hw ho ha => exact ⟨ho, ha⟩
    | inside k' cseq rest' hw hp ho ha =>
      rw [hwaiting] at hw
      cases hw
  obtain ⟨horder, hasked⟩ := hphase
  have hasked' : Pairing.asked (agent.Send k) =
      (agent.connected ++ channels [k]).map RequestKind.cmd := by
    have hsent : (agent.Send k).sent =
        agent.sent ++ [{ agent.requests k with _cseq := agent.m_CSeq }] := rfl
    rw [asked_concat hsent (h.cmds k), hasked, List.map_append]
  have hcmds : ∀ k', ((agent.Send k).requests k')._cmd = k'.cmd := fun k' => by
    by_cases hk : k' = k
    · subst hk
      simp [ProjectorAgent.Send, ProjectorAgent.SetCSeq, h.cmds]
    · simp [ProjectorAgent.Send, ProjectorAgent.SetCSeq, Function.update_of_ne hk, h.cmds]
  have hwaiting' : (agent.Send k).waiting = [] := hwaiting
  obtain rfl := Option.some.inj hstep
  by_cases hready : (agent.Send k).ready k = true
  · rw [if_pos hready]
    have hfinished :=
      Redirects.finished (agent.Send k) hcmds hwaiting' horder hasked' agent.m_CSeq connects
    rw [if_neg (not_not_intro ((finish_waiting _ _ _ _).trans hwaiting'))]
    exact hfinished
  · rw [if_neg hready]
    have hin : ({ agent.Send k with waiting := (agent.Send k).waiting ++ [(k, agent.m_CSeq)] } :
        ProjectorAgent).waiting = [(k, agent.m_CSeq)] := by rw [hwaiting', List.nil_append]
    rw [if_pos (by rw [hin]; nofun)]
    have hprefix := connected_prefix horder
    exact ⟨hcmds, hasked' ▸ hprefix.map _, (List.prefix_append _ _).trans hprefix,
      .inside k _ rest hin rfl horder hasked'⟩

theorem wake_cases {cseq : Int} (hw : agent.waiting = [(k, cseq)]) {timeout connects : Bool}
    (hstep : agent.step (.wake 0 timeout connects) = some agent') :
    agent' = ({ agent with waiting := [] } : ProjectorAgent).finish k cseq connects ∨
      agent' = { agent with waiting := [] } ∨ agent' = agent := by
  have hget : agent.waiting[0]? = some (k, cseq) := by rw [hw]; rfl
  have herase : agent.waiting.eraseIdx 0 = [] := by rw [hw]; rfl
  simp only [ProjectorAgent.step, hget, herase] at hstep
  split at hstep
  · exact Or.inl (Option.some.inj hstep).symm
  · split at hstep
    · exact Or.inr (Or.inl (Option.some.inj hstep).symm)
    · exact Or.inr (Or.inr (Option.some.inj hstep).symm)

theorem Redirects.wake (h : Redirects agent program) {timeout connects : Bool}
    (hstep : agent.step (.wake 0 timeout connects) = some agent') :
    Redirects agent' (if agent'.waiting ≠ [] then program
      else if agent.returned.length < agent'.returned.length then program.tail else []) := by
  cases h.phase with
  | ended hw hp => simp [ProjectorAgent.step, hw] at hstep
  | between hw ho ha => simp [ProjectorAgent.step, hw] at hstep
  | inside k cseq rest hw hp horder hasked =>
    subst hp
    rcases wake_cases hw hstep with rfl | rfl | rfl
    · have hfinished :=
        Redirects.finished { agent with waiting := [] } h.cmds rfl horder hasked cseq connects
      rw [if_neg (not_not_intro (finish_waiting _ _ _ _))]
      exact hfinished
    · rw [if_neg (by simp), if_neg (Nat.lt_irrefl _)]
      exact ⟨h.cmds, h.asked, h.connected, .ended rfl rfl⟩
    · rw [if_pos (by rw [hw]; exact List.cons_ne_nil _ _)]
      exact h

/-- What the projector can read only grows. -/
structure Extends (agent agent' : ProjectorAgent) : Prop where
  sent : agent.sent <+: agent'.sent
  connected : agent.connected <+: agent'.connected

theorem Extends.refl {agent agent' : ProjectorAgent} (hsent : agent'.sent = agent.sent)
    (hconnected : agent'.connected = agent.connected) : Extends agent agent' :=
  ⟨hsent ▸ List.prefix_refl _, hconnected ▸ List.prefix_refl _⟩

theorem finish_extends (agent : ProjectorAgent) (k : RequestKind) (cseq : Int) (connects : Bool) :
    Extends agent (agent.finish k cseq connects) := by
  rcases finish_cases agent k cseq connects with heq | ⟨e, heq⟩
  · rw [heq]
    exact .refl rfl rfl
  · rw [heq]
    exact ⟨List.prefix_refl _, List.prefix_append _ _⟩

theorem extends_of_frame (hf : ProjectorAgent.Frame agent agent') : Extends agent agent' := by
  constructor
  · rcases hf.sent with hsent | ⟨cseq, hsent⟩
    · rw [hsent]
    · rw [hsent]
      exact List.prefix_append _ _
  · rw [hf.connected]

theorem step_extends {a : ProjectorAgent.Action} (hstep : agent.step a = some agent') :
    Extends agent agent' := by
  cases a with
  | issue k connects =>
    obtain rfl := Option.some.inj hstep
    have hsend : Extends agent (agent.Send k) := ⟨List.prefix_append _ _, List.prefix_refl _⟩
    split
    · have hfinish := finish_extends (agent.Send k) k agent.m_CSeq connects
      exact ⟨hsend.sent.trans hfinish.sent, hsend.connected.trans hfinish.connected⟩
    · exact ⟨hsend.sent, hsend.connected⟩
  | issueFails k =>
    obtain rfl := Option.some.inj hstep
    exact .refl rfl rfl
  | heartbeatCSeq => exact extends_of_frame (ProjectorAgent.step_frame hstep trivial)
  | heartbeatSend goesOut => exact extends_of_frame (ProjectorAgent.step_frame hstep trivial)
  | receive response => exact extends_of_frame (ProjectorAgent.step_frame hstep trivial)
  | compare => exact extends_of_frame (ProjectorAgent.step_frame hstep trivial)
  | record =>
    simp only [ProjectorAgent.step] at hstep
    split at hstep
    · exact Option.some.inj hstep ▸ .refl rfl rfl
    · cases hstep
  | wake i timeout connects =>
    simp only [ProjectorAgent.step] at hstep
    split at hstep
    · cases hstep
    · split at hstep
      · obtain rfl := Option.some.inj hstep
        have hfinish := finish_extends { agent with waiting := agent.waiting.eraseIdx i }
        exact ⟨(hfinish _ _ _).sent, (hfinish _ _ _).connected⟩
      · split at hstep
        · exact Option.some.inj hstep ▸ .refl rfl rfl
        · exact Option.some.inj hstep ▸ .refl rfl rfl
  | cancel =>
    obtain rfl := Option.some.inj hstep
    exact .refl rfl rfl

end Redirects

/-! ## The projector's side -/

/-- Where the projector is in a `try` block that is given one connection. -/
inductive ServePhase where
  | before
  | accepted
  | attached
  deriving DecidableEq

/-- The rest of a block accepts, then makes the member of the kind, each once. -/
def Serving (k : RequestKind) : ServePhase → List Step → Bool
  | ph, [] => ph == .attached
  | ph, .factory .WaitForConnection :: rest => ph == .before && Serving k .accepted rest
  | ph, .factory (.make m) :: rest =>
    match m.channel with
    | none => Serving k ph rest
    | some k' => ph == .accepted && k' == k && Serving k .attached rest
  | ph, _ :: rest => Serving k ph rest

/-- Every channel request has such a block. -/
theorem setup_serving {k : RequestKind} (hk : k ∈ order) :
    ∃ steps, Session.setup k.cmd = some steps ∧ Serving k .before steps = true := by
  cases k with
  | resolution => exact absurd hk (by decide)
  | screen => exact ⟨_, rfl, rfl⟩
  | hid => exact ⟨_, rfl, rfl⟩
  | dr => exact ⟨_, rfl, rfl⟩
  | audioPlayback => exact ⟨_, rfl, rfl⟩
  | touchAndPen => exact ⟨_, rfl, rfl⟩

/-- How many channel requests the projector has read. -/
def channelsRead (s : Pairing) : Nat := ((s.agent.sent.take s.taken).filter isChannel).length

/-- A connection and the member it was given to are of one kind. -/
def Matched (e : Option RequestKind × Member) : Prop := ∃ k, e.1 = some k ∧ e.2.channel = some k

/-- How far the projector is with the channel requests it has read: with all of them, or in the
block of the last one. -/
inductive Progress (s : Pairing) : Prop where
  | idle (hserving : s.serving = none) (haccepted : s.accepted = s.channelsRead)
      (hattached : s.attached.length = s.channelsRead)
  | block (request : IMsg) (rest : List Step) (j : Nat) (k : RequestKind) (ph : ServePhase)
      (hserving : s.serving = some (request, rest)) (hread : s.channelsRead = j + 1)
      (hk : order[j]? = some k) (hrest : Serving k ph rest = true)
      (haccepted : s.accepted = if ph = .before then j else j + 1)
      (hattached : s.attached.length = if ph = .attached then j + 1 else j)
      (hsocket : ph = .accepted → s.socket = some k)

/-- The invariant of the projector's side: it has accepted the first connections and given each to
the member of its kind. -/
structure Serves (s : Pairing) : Prop where
  taken_le : s.taken ≤ s.agent.sent.length
  accepted_le : s.accepted ≤ s.agent.connected.length
  progress : Progress s
  attached : s.attached.map Prod.fst = (order.take s.attached.length).map some
  matched : ∀ e ∈ s.attached, Matched e

/-- The invariant of both sides. -/
structure Paired (s : Pairing) : Prop where
  redirects : Redirects s.agent s.program
  serves : Serves s

section Serves

variable {s t : Pairing}

theorem Redirects.initial : Redirects ProjectorAgent.initial RequestKind.all where
  cmds _ := rfl
  asked := List.nil_prefix
  connected := List.nil_prefix
  phase := .between rfl rfl rfl

theorem Paired.initial : Paired initial where
  redirects := Redirects.initial
  serves := {
    taken_le := Nat.le_refl 0
    accepted_le := Nat.le_refl 0
    progress := .idle rfl rfl rfl
    attached := rfl
    matched := fun _ h => absurd h List.not_mem_nil }

/-- The agent may go on while the projector does nothing. -/
theorem Serves.extend (h : Serves s) {agent : ProjectorAgent} (hext : Extends s.agent agent)
    {program : List RequestKind} {delivered : Nat} :
    Serves { s with agent, program, delivered } := by
  obtain ⟨more, hmore⟩ := hext.sent
  have hread : channelsRead { s with agent, program, delivered } = s.channelsRead := by
    simp only [channelsRead, ← hmore, List.take_append_of_le_length h.taken_le]
  refine ⟨?_, ?_, ?_, h.attached, h.matched⟩
  · exact h.taken_le.trans hext.sent.length_le
  · exact h.accepted_le.trans hext.connected.length_le
  · cases h.progress with
    | idle hs ha hl => exact .idle hs (hread ▸ ha) (hread ▸ hl)
    | block request rest j k ph hs hr hk hrest ha hl hsocket =>
      exact .block request rest j k ph hs (hread.trans hr) hk hrest ha hl hsocket

theorem channelsRead_next {request : IMsg} (hnext : s.agent.sent[s.taken]? = some request) :
    ((s.agent.sent.take (s.taken + 1)).filter isChannel).length =
      s.channelsRead + if isChannel request then 1 else 0 := by
  rw [List.take_add_one, hnext, List.filter_append, List.length_append, channelsRead]
  cases hchannel : isChannel request <;> simp [hchannel]

/-- A channel request that is read next is the one whose turn it is. -/
theorem Paired.turn (h : Paired s) {request : IMsg}
    (hnext : s.agent.sent[s.taken]? = some request) (hchannel : isChannel request = true) :
    ∃ k, order[s.channelsRead]? = some k ∧ request._cmd = k.cmd := by
  obtain ⟨hlt, heq⟩ := List.getElem?_eq_some_iff.mp hnext
  have hsplit : s.agent.sent =
      s.agent.sent.take s.taken ++ request :: s.agent.sent.drop (s.taken + 1) := by
    rw [← heq, ← List.drop_eq_getElem_cons hlt, List.take_append_drop]
  obtain ⟨rest, hrest⟩ := h.redirects.asked
  have hasked : asked s.agent = ((s.agent.sent.take s.taken).filter isChannel).map IMsg._cmd ++
      request._cmd :: ((s.agent.sent.drop (s.taken + 1)).filter isChannel).map IMsg._cmd := by
    calc asked s.agent
        = ((s.agent.sent.take s.taken ++ request :: s.agent.sent.drop (s.taken + 1)).filter
            isChannel).map IMsg._cmd :=
          congrArg (fun sent : List IMsg => (sent.filter isChannel).map IMsg._cmd) hsplit
      _ = _ := by
          rw [List.filter_append, List.filter_cons, if_pos hchannel, List.map_append, List.map_cons]
  have hget : (order.map RequestKind.cmd)[s.channelsRead]? = some request._cmd := by
    rw [← hrest, hasked, List.append_assoc, channelsRead]
    rw [List.getElem?_append_right (by simp)]
    simp
  rw [List.getElem?_map] at hget
  obtain ⟨k, hk, hcmd⟩ := Option.map_eq_some_iff.mp hget
  exact ⟨k, hk, hcmd.symm⟩

theorem Paired.take (h : Paired s) {request : IMsg} (hserving : s.serving = none)
    (hnext : s.agent.sent[s.taken]? = some request) (metrics : Int × Int) :
    Paired (s.takeRequest request metrics) := by
  obtain ⟨hlt, -⟩ := List.getElem?_eq_some_iff.mp hnext
  have hread := channelsRead_next hnext
  have hidle : s.accepted = s.channelsRead ∧ s.attached.length = s.channelsRead := by
    cases h.serves.progress with
    | idle _ ha hl => exact ⟨ha, hl⟩
    | block request' rest j k ph hs =>
      rw [hserving] at hs
      cases hs
  obtain ⟨haccepted, hattached⟩ := hidle
  -- a request without a block changes nothing but what was read
  have hskip : isChannel request = false → ∀ session : Session,
      Paired { s with taken := s.taken + 1, session } := fun hno session => by
    rw [hno] at hread
    exact ⟨h.redirects, hlt, h.serves.accepted_le,
      .idle hserving (haccepted.trans hread.symm) (hattached.trans hread.symm),
      h.serves.attached, h.serves.matched⟩
  unfold takeRequest
  split
  · rename_i hbeat
    refine hskip ?_ _
    rw [isChannel, hbeat]
    decide
  · split
    · rename_i steps hsetup
      have hchannel : isChannel request = true := by rw [isChannel, hsetup]; rfl
      obtain ⟨k, hk, hcmd⟩ := h.turn hnext hchannel
      obtain ⟨steps', hsteps', hblock⟩ := setup_serving (List.mem_of_getElem? hk)
      obtain rfl : steps' = steps := by
        rw [hcmd] at hsetup
        exact Option.some.inj (hsteps'.symm.trans hsetup)
      rw [hchannel] at hread
      exact ⟨h.redirects, hlt, h.serves.accepted_le,
        .block request steps' _ k .before rfl hread hk hblock haccepted hattached nofun,
        h.serves.attached, h.serves.matched⟩
    · rename_i hsetup
      refine hskip ?_ _
      rw [isChannel, hsetup]
      rfl

/-- The accept: the connection that waits longest is the one this request is for. -/
theorem Paired.accept (h : Paired s) {request : IMsg} {rest : List Step} {k' : RequestKind}
    (hserving : s.serving = some (request, .factory .WaitForConnection :: rest))
    (hnext : s.agent.connected[s.accepted]? = some k') (session : Session) :
    Paired { s with
      session, serving := some (request, rest), accepted := s.accepted + 1,
      socket := some k' } := by
  cases h.serves.progress with
  | idle hs => rw [hserving] at hs; cases hs
  | block request' rest' j k ph hs hread hk hrest haccepted hattached hsocket =>
    rw [hserving] at hs
    obtain ⟨rfl, rfl⟩ := Prod.mk.inj (Option.some.inj hs)
    simp only [Serving, Bool.and_eq_true, beq_iff_eq] at hrest
    obtain ⟨rfl, hrest⟩ := hrest
    rw [if_pos rfl] at haccepted
    -- connections come in the order of the requests
    have hkk : k' = k := by
      obtain ⟨more, hmore⟩ := h.redirects.connected
      have hlt : s.accepted < s.agent.connected.length := (List.getElem?_eq_some_iff.mp hnext).1
      rw [haccepted] at hnext hlt
      rw [← hmore, List.getElem?_append_left hlt, hnext] at hk
      exact Option.some.inj hk
    subst hkk
    obtain ⟨hlt, -⟩ := List.getElem?_eq_some_iff.mp hnext
    exact ⟨h.redirects, h.serves.taken_le, hlt,
      .block request rest j k' .accepted rfl hread hk hrest (by rw [haccepted]; rfl) hattached
        fun _ => rfl, h.serves.attached, h.serves.matched⟩

/-- The socket accepted last is given to a member. -/
theorem Paired.attach (h : Paired s) {request : IMsg} {rest : List Step} {m : Member}
    (hserving : s.serving = some (request, .factory (.make m) :: rest))
    (hm : m.channel.isSome = true) (session : Session) :
    Paired { s with
      session, serving := some (request, rest), attached := s.attached ++ [(s.socket, m)] } := by
  obtain ⟨k', hk'⟩ := Option.isSome_iff_exists.mp hm
  cases h.serves.progress with
  | idle hs => rw [hserving] at hs; cases hs
  | block request' rest' j k ph hs hread hk hrest haccepted hattached hsocket =>
    rw [hserving] at hs
    obtain ⟨rfl, rfl⟩ := Prod.mk.inj (Option.some.inj hs)
    simp only [Serving, hk', Bool.and_eq_true, beq_iff_eq] at hrest
    obtain ⟨⟨rfl, rfl⟩, hrest⟩ := hrest
    have hsock := hsocket rfl
    have hlen : s.attached.length = j := hattached
    refine ⟨h.redirects, h.serves.taken_le, h.serves.accepted_le,
      .block request rest j k' .attached rfl hread hk hrest haccepted ?_ nofun, ?_, ?_⟩
    · rw [if_pos rfl, List.length_append, hlen]
      rfl
    · rw [List.map_append, h.serves.attached, List.length_append, hlen, hsock]
      simp [List.take_add_one, hk]
    · intro e he
      rcases List.mem_append.mp he with he | he
      · exact h.serves.matched e he
      · rw [List.mem_singleton.mp he]
        exact ⟨k', hsock, hk'⟩

/-- Any other statement. -/
theorem Paired.other (h : Paired s) {request : IMsg} {st : Step} {rest : List Step}
    (hserving : s.serving = some (request, st :: rest))
    (hst : ∀ k ph, Serving k ph (st :: rest) = Serving k ph rest) (session : Session) :
    Paired { s with session, serving := some (request, rest) } := by
  cases h.serves.progress with
  | idle hs => rw [hserving] at hs; cases hs
  | block request' rest' j k ph hs hread hk hrest haccepted hattached hsocket =>
    rw [hserving] at hs
    obtain ⟨rfl, rfl⟩ := Prod.mk.inj (Option.some.inj hs)
    rw [hst] at hrest
    exact ⟨h.redirects, h.serves.taken_le, h.serves.accepted_le,
      .block request rest j k ph rfl hread hk hrest haccepted hattached hsocket,
      h.serves.attached, h.serves.matched⟩

theorem Paired.serveStep (h : Paired s) {request : IMsg} {st : Step} {rest : List Step}
    (hserving : s.serving = some (request, st :: rest))
    (hstep : s.serveStep request st rest = some t) : Paired t := by
  unfold Pairing.serveStep at hstep
  dsimp only at hstep
  split at hstep
  · split at hstep
    · cases hstep
    · rename_i k' hnext
      obtain rfl := Option.some.inj hstep
      exact h.accept hserving hnext _
  · rename_i m
    split at hstep
    · rename_i hm
      obtain rfl := Option.some.inj hstep
      exact h.attach hserving hm _
    · rename_i hm
      obtain rfl := Option.some.inj hstep
      refine h.other hserving (fun k ph => ?_) _
      have hnone : m.channel = none := by simpa using hm
      simp only [Serving, hnone]
  · rename_i hwait hmake
    obtain rfl := Option.some.inj hstep
    refine h.other hserving (fun k ph => ?_) _
    cases st with
    | respond => rfl
    | factory op =>
      cases op with
      | WaitForConnection => exact absurd rfl hwait
      | make m => exact absurd rfl (hmake m)
      | start m => rfl
      | queryPlugins => rfl
      | SetTcpNoDelay => rfl
      | SetRecvBufferSize => rfl
      | SetSendBufferSize => rfl
      | makeTcpChannel => rfl
      | operands l => rfl
      | link l => rfl

theorem asked_of_frame {agent agent' : ProjectorAgent} (hf : ProjectorAgent.Frame agent agent') :
    asked agent' = asked agent := by
  rcases hf.sent with hsent | ⟨cseq, hsent⟩
  · rw [asked, hsent, asked]
  · have hno : isChannel { RequestMsg RTSP_TYPE_HEART_BEAT with _cseq := cseq } = false := by
      have h : (Session.setup RTSP_TYPE_HEART_BEAT).isSome = false := by decide
      exact h
    simp only [asked, hsent, List.filter_append, List.filter_cons, hno, Bool.false_eq_true,
      if_false, List.filter_nil, List.append_nil]

/-- A step of the agent that is none of the redirector's own: by the timer or the RTSP worker. -/
theorem Paired.background (h : Paired s) {act : ProjectorAgent.Action} {agent : ProjectorAgent}
    {delivered : Nat} (hstep : s.agent.step act = some agent)
    (hact : ProjectorAgent.Quiet act ∨ act = .record) : Paired { s with agent, delivered } := by
  refine ⟨?_, h.serves.extend (step_extends hstep)⟩
  rcases hact with hquiet | rfl
  · have hf := ProjectorAgent.step_frame hstep hquiet
    exact h.redirects.background hf.requests hf.waiting hf.connected (asked_of_frame hf)
  · simp only [ProjectorAgent.step] at hstep
    split at hstep
    · obtain rfl := Option.some.inj hstep
      exact h.redirects.background rfl rfl rfl rfl
    · cases hstep

/-- **One step** of either side. -/
theorem Paired.step {a : Action} (h : Paired s) (hstep : s.step a = some t) : Paired t := by
  cases a with
  | call connects =>
    simp only [Pairing.step] at hstep
    split at hstep
    · rename_i k rest hwaiting hprogram
      obtain ⟨agent, hact, rfl⟩ := Option.map_eq_some_iff.mp hstep
      have hr := h.redirects
      rw [hprogram] at hr
      have hr' := hr.call hwaiting hact
      refine ⟨?_, h.serves.extend (step_extends hact)⟩
      simpa only [advance, hprogram, List.tail_cons] using hr'
    · cases hstep
  | wake timeout connects =>
    simp only [Pairing.step] at hstep
    obtain ⟨agent, hact, rfl⟩ := Option.map_eq_some_iff.mp hstep
    exact ⟨h.redirects.wake hact, h.serves.extend (step_extends hact)⟩
  | heartbeatCSeq =>
    simp only [Pairing.step] at hstep
    obtain ⟨agent, hact, rfl⟩ := Option.map_eq_some_iff.mp hstep
    exact h.background hact (Or.inl trivial)
  | heartbeatSend goesOut =>
    simp only [Pairing.step] at hstep
    obtain ⟨agent, hact, rfl⟩ := Option.map_eq_some_iff.mp hstep
    exact h.background hact (Or.inl trivial)
  | deliver =>
    simp only [Pairing.step] at hstep
    split at hstep
    · cases hstep
    · obtain ⟨agent, hact, rfl⟩ := Option.map_eq_some_iff.mp hstep
      exact h.background hact (Or.inl trivial)
  | compare =>
    simp only [Pairing.step] at hstep
    obtain ⟨agent, hact, rfl⟩ := Option.map_eq_some_iff.mp hstep
    exact h.background hact (Or.inl trivial)
  | record =>
    simp only [Pairing.step] at hstep
    obtain ⟨agent, hact, rfl⟩ := Option.map_eq_some_iff.mp hstep
    exact h.background hact (Or.inr rfl)
  | take metrics =>
    simp only [Pairing.step] at hstep
    split at hstep
    · cases hstep
    · split at hstep
      · rename_i hserving hnext
        exact Option.some.inj hstep ▸ h.take hserving hnext metrics
      · cases hstep
  | serve =>
    simp only [Pairing.step] at hstep
    split at hstep
    · cases hstep
    · split at hstep
      · cases hstep
      · rename_i hserving
        obtain rfl := Option.some.inj hstep
        cases h.serves.progress with
        | idle hs => rw [hserving] at hs; cases hs
        | block request rest j k ph hs hread hk hrest haccepted hattached hsocket =>
          rw [hserving] at hs
          obtain ⟨rfl, rfl⟩ := Prod.mk.inj (Option.some.inj hs)
          have hph : ph = .attached := by simpa [Serving] using hrest
          subst hph
          exact ⟨h.redirects, h.serves.taken_le, h.serves.accepted_le,
            .idle rfl (haccepted.trans hread.symm) (hattached.trans hread.symm),
            h.serves.attached, h.serves.matched⟩
      · rename_i hserving
        exact h.serveStep hserving hstep

theorem Paired.attached_le (h : Paired s) : s.attached.length ≤ s.accepted := by
  cases h.serves.progress with
  | idle _ ha hl => exact (hl.trans ha.symm).le
  | block request rest j k ph hs hread hk hrest haccepted hattached hsocket =>
    rw [haccepted, hattached]
    cases ph with
    | before => exact Nat.le_refl j
    | accepted => exact Nat.le_succ j
    | attached => exact Nat.le_refl (j + 1)

/-- **Every connection goes to the pipeline of its kind.** However the steps of the redirector's run
and of the session that serves it interleave, the members that were given a connection have theirs,
the connections were given out in the order in which they were opened, and while no request is being
served every connection that was accepted has its member. -/
theorem connections_paired (as : List Action) (hrun : run step initial as = some s) :
    (∀ e ∈ s.attached, Matched e) ∧
      s.attached.map Prod.fst = (s.agent.connected.take s.attached.length).map some ∧
      (s.serving = none → s.attached.length = s.accepted) := by
  have h : Paired s := run_invariant_all (fun _ _ _ h hs => h.step hs) Paired.initial hrun
  refine ⟨h.serves.matched, ?_, ?_⟩
  · obtain ⟨more, hmore⟩ := h.redirects.connected
    have hle := h.attached_le.trans h.serves.accepted_le
    rw [h.serves.attached, ← hmore, List.take_append_of_le_length hle]
  · intro hserving
    cases h.serves.progress with
    | idle _ ha hl => exact hl.trans ha.symm
    | block request rest j k ph hs =>
      rw [hserving] at hs
      cases hs

/-- The HID channel is requested before the screen's connection is accepted. -/
theorem connections_paired_overlapping :
    ∃ s, run step initial (List.flatten [[.call true, .take (0, 0), .deliver, .compare, .record,
        .wake false true, .call true, .take (0, 0)], List.replicate 7 .serve, [.deliver, .compare,
        .compare, .record, .wake false true, .call true], List.replicate 11 .serve, [.take (0, 0),
        .serve, .deliver, .compare, .compare, .compare, .record, .wake false true],
        List.replicate 8 .serve]) = some s ∧
      s.attached = [(some .screen, .m_RdpSource), (some .hid, .m_HIDRedirector)] ∧
      ∀ e ∈ s.attached, Matched e := by
  have hobs : (run step initial (List.flatten [[.call true, .take (0, 0), .deliver, .compare,
      .record, .wake false true, .call true, .take (0, 0)], List.replicate 7 .serve, [.deliver,
      .compare, .compare, .record, .wake false true, .call true], List.replicate 11 .serve,
      [.take (0, 0), .serve, .deliver, .compare, .compare, .compare, .record, .wake false true],
      List.replicate 8 .serve])).map Pairing.attached =
        some [(some .screen, .m_RdpSource), (some .hid, .m_HIDRedirector)] := by decide +kernel
  obtain ⟨s, hrun, hattached⟩ := Option.map_eq_some_iff.mp hobs
  exact ⟨s, hrun, hattached, (connections_paired _ hrun).1⟩

end Serves

end Pairing

end TiraRdp
