import Mathlib.Logic.Function.Basic
import TiraRdp.Lib.Lts
import TiraRdp.Lib.Word
import TiraRdp.Rtsp.IMsg

/-!
# `ProjectorAgent`: requests and their responses

Model of `redirector-client/ProjectorAgent.cpp` as a system: threads in the six operations, the RTSP
worker in `ReceivedResponseEvent`, the heartbeat timer, the destructor. An operation is under
`_mutex` except while it waits, so its parts in front of and behind the wait are one action each;
the worker compares a response with the six requests outside of `_mutex`, one request after the
other, and takes it only then. A waiting operation may wake at any time.

`sent` and `connected` are what the outside sees: the requests on the wire, the connections opened
to the media port. Ghost fields: the responses received, the operations that returned normally.

Result: an operation returns normally only if its own request was answered OK, as long as no flag is
stale when an operation is issued and no response is recorded over the head of a waiting operation
(`returns_are_answered`).
-/

namespace TiraRdp

open Lib Lib.Lts

/-- The requests of an agent, in the order in which a response is compared with them. -/
inductive RequestKind where
  | resolution
  | screen
  | hid
  | dr
  | audioPlayback
  | touchAndPen
  deriving Repr, DecidableEq

namespace RequestKind

def all : List RequestKind := [.resolution, .screen, .hid, .dr, .audioPlayback, .touchAndPen]

def cmd : RequestKind → Bytes
  | .resolution => ascii "RESOLUTION"
  | .screen => ascii "SETUP_SCREEN_CHANNEL"
  | .hid => ascii "SETUP_HID_CHANNEL"
  | .dr => ascii "SETUP_DR_CHANNEL"
  | .audioPlayback => ascii "SETUP_AUDIOPLAYBACK_CHANNEL"
  | .touchAndPen => ascii "SETUP_TOUCHANDPEN_CHANNEL"

end RequestKind

/-- What the next comparison of `ReceivedResponseEvent` comes to. -/
inductive Comparison where
  | same (k : RequestKind)
  | differs (rest : List RequestKind)
  /-- the response is for none of the requests -/
  | ended
  deriving Repr, DecidableEq

/-- One comparison of `ReceivedResponseEvent` (`ProjectorAgent.cpp:31-72`): the CSeq of a response
with that of the next request. -/
def compareNext (requests : RequestKind → Int) (cseq : Int) : List RequestKind → Comparison
  | [] => .ended
  | k :: rest => if requests k = cseq then .same k else .differs rest

theorem compareNext_eq_same {requests : RequestKind → Int} {cseq : Int} {rest : List RequestKind}
    {k : RequestKind} :
    compareNext requests cseq rest = .same k ↔ requests k = cseq ∧ rest.head? = some k := by
  cases rest with
  | nil => simp [compareNext]
  | cons k' rest =>
    rw [compareNext, List.head?_cons, Option.some.injEq]
    by_cases hk : requests k' = cseq
    · rw [if_pos hk, Comparison.same.injEq]
      exact ⟨fun h => ⟨h ▸ hk, h⟩, And.right⟩
    · rw [if_neg hk]
      refine ⟨nofun, ?_⟩
      rintro ⟨hsame, rfl⟩
      exact absurd hsame hk

/-- Where the RTSP worker is in `ReceivedResponseEvent`. -/
inductive ResponseHandler where
  | idle
  | comparing (response : IMsg) (rest : List RequestKind)
  | matched (k : RequestKind) (response : IMsg)

/-- An operation that returned normally: its kind, the CSeq of its request, was that answered OK? -/
structure Returned where
  kind : RequestKind
  cseq : Int
  answered : Bool
  deriving Repr, DecidableEq

structure ProjectorAgent where
  m_CSeq : Int
  requests : RequestKind → IMsg
  received : RequestKind → Bool
  _setupScreenChannelResult : Bool
  /-- the text that `_resolution` was parsed from -/
  _resolution : Bytes
  _canncelled : Bool
  handler : ResponseHandler
  waiting : List (RequestKind × Int)
  sent : List IMsg
  connected : List RequestKind
  responses : List IMsg
  returned : List Returned

namespace ProjectorAgent

def initial : ProjectorAgent where
  m_CSeq := 0
  requests k := RequestMsg k.cmd
  received _ := false
  _setupScreenChannelResult := false
  _resolution := []
  _canncelled := false
  handler := .idle
  waiting := []
  sent := []
  connected := []
  responses := []
  returned := []

inductive Action where
  | issue (k : RequestKind) (connects : Bool)
  | issueFails (k : RequestKind)
  | heartbeatCSeq
  | heartbeatSend (goesOut : Bool)
  | receive (response : IMsg)
  | compare
  | record
  | wake (i : Nat) (timeout connects : Bool)
  | cancel

/-- Some response with this CSeq says OK. -/
def Answered (s : ProjectorAgent) (cseq : Int) : Prop :=
  ∃ r ∈ s.responses, r._cseq = cseq ∧ GetResult r = true

instance (s : ProjectorAgent) (cseq : Int) : Decidable (s.Answered cseq) :=
  inferInstanceAs (Decidable (∃ r ∈ s.responses, _))

/-- The predicate an operation waits for. -/
def ready (s : ProjectorAgent) (k : RequestKind) : Bool := s.received k || s._canncelled

/-- The check behind the wait: there is none on a resolution, and only the one on the screen is on
a result. -/
def passes (s : ProjectorAgent) : RequestKind → Bool
  | .resolution => true
  | .screen => s._setupScreenChannelResult
  | .hid => s.received .hid
  | .dr => s.received .dr
  | .audioPlayback => s.received .audioPlayback
  | .touchAndPen => s.received .touchAndPen

/-- What an operation does behind its wait: it throws, or it returns the resolution or a
connection. -/
def finish (s : ProjectorAgent) (k : RequestKind) (cseq : Int) (connects : Bool) : ProjectorAgent :=
  if s.passes k then
    if k = .resolution then { s with returned := s.returned ++ [⟨k, cseq, s.Answered cseq⟩] }
    else if connects then
      { s with
        connected := s.connected ++ [k]
        returned := s.returned ++ [⟨k, cseq, s.Answered cseq⟩] }
    else s
  else s

/-- `SetCSeq(m_CSeq++)` on the request of an operation. -/
def SetCSeq (s : ProjectorAgent) (k : RequestKind) : ProjectorAgent :=
  { s with
    requests := Function.update s.requests k { s.requests k with _cseq := s.m_CSeq }
    m_CSeq := i32 (s.m_CSeq + 1) }

/-- `_rtsp.Send(request)`. -/
def Send (s : ProjectorAgent) (k : RequestKind) : ProjectorAgent :=
  { s.SetCSeq k with sent := s.sent ++ [{ s.requests k with _cseq := s.m_CSeq }] }

/-- What a response does to the request it was taken for. -/
def record (s : ProjectorAgent) (k : RequestKind) (response : IMsg) : ProjectorAgent :=
  { s with
    received := Function.update s.received k true
    _setupScreenChannelResult :=
      if k = .screen then GetResult response else s._setupScreenChannelResult
    _resolution := if k = .resolution then response._data else s._resolution
    handler := .idle }

def step (s : ProjectorAgent) : Action → Option ProjectorAgent
  | .issue k connects =>
    let t := s.Send k
    some (if t.ready k then t.finish k s.m_CSeq connects
      else { t with waiting := t.waiting ++ [(k, s.m_CSeq)] })
  | .issueFails k => some (s.SetCSeq k)
  | .heartbeatCSeq => some { s with m_CSeq := i32 (s.m_CSeq + 1) }
  | .heartbeatSend goesOut =>
    some { s with
      m_CSeq := i32 (s.m_CSeq + 1)
      sent := if goesOut then s.sent ++ [{ RequestMsg RTSP_TYPE_HEART_BEAT with _cseq := s.m_CSeq }]
        else s.sent }
  | .receive response =>
    match s.handler with
    | .idle =>
      some { s with
        responses := s.responses ++ [response]
        handler := .comparing response RequestKind.all }
    | _ => none
  | .compare =>
    match s.handler with
    | .comparing response rest =>
      match compareNext (fun k => (s.requests k)._cseq) response._cseq rest with
      | .same k => some { s with handler := .matched k response }
      | .differs rest => some { s with handler := .comparing response rest }
      | .ended => some { s with handler := .idle }
    | _ => none
  | .record =>
    match s.handler with
    | .matched k response => some (s.record k response)
    | _ => none
  | .wake i timeout connects =>
    match s.waiting[i]? with
    | none => none
    | some (k, cseq) =>
      if s.ready k then
        some (({ s with waiting := s.waiting.eraseIdx i } : ProjectorAgent).finish k cseq connects)
      else if timeout then some { s with waiting := s.waiting.eraseIdx i }
      else some s
  | .cancel => some { s with _canncelled := true }

/-! ## Operations and their answers -/

/-- The steps after which an operation's wait and check still tell its own answer:

* an operation is not issued where its wait and check would let it through at once;
* when a response is recorded for a kind, every operation of that kind that waits has received its
  own OK by then, or the response is a FAIL for the screen;
* the destructor does not find a resolution waiting for its answer. -/
def Proper (s : ProjectorAgent) : Action → Prop
  | .issue k _ => ¬ (s.ready k = true ∧ s.passes k = true)
  | .record => ∀ k response, s.handler = .matched k response → ∀ cseq, (k, cseq) ∈ s.waiting →
      s.Answered cseq ∨ k = .screen ∧ GetResult response = false
  | .cancel => ∀ cseq, (.resolution, cseq) ∈ s.waiting → s.Answered cseq
  | .issueFails _ => True
  | .heartbeatCSeq => True
  | .heartbeatSend _ => True
  | .receive _ => True
  | .compare => True
  | .wake _ _ _ => True

/-- The invariant: whoever has returned was answered, and so was whoever the wait and the check
would let through now. -/
structure Sound (s : ProjectorAgent) : Prop where
  returned : ∀ e ∈ s.returned, e.answered = true
  waiting : ∀ k cseq, (k, cseq) ∈ s.waiting → s.ready k = true → s.passes k = true →
    s.Answered cseq
  result : s._setupScreenChannelResult = true → s.received .screen = true

theorem Sound.initial : Sound initial where
  returned _ h := absurd h List.not_mem_nil
  waiting _ _ h := absurd h List.not_mem_nil
  result h := by cases h

variable {s t : ProjectorAgent}

/-- A kind that passes its check has had a response, a resolution apart. -/
theorem Sound.received_of_passes (h : Sound s) {k : RequestKind} (hk : k ≠ .resolution)
    (hp : s.passes k = true) : s.received k = true := by
  cases k with
  | resolution => exact absurd rfl hk
  | screen => exact h.result hp
  | hid => exact hp
  | dr => exact hp
  | audioPlayback => exact hp
  | touchAndPen => exact hp

/-- What the timer and a worker that is only comparing leave alone. -/
structure Frame (s t : ProjectorAgent) : Prop where
  requests : t.requests = s.requests
  received : t.received = s.received
  result : t._setupScreenChannelResult = s._setupScreenChannelResult
  cancelled : t._canncelled = s._canncelled
  waiting : t.waiting = s.waiting
  connected : t.connected = s.connected
  returned : t.returned = s.returned
  responses : ∀ r ∈ s.responses, r ∈ t.responses
  sent : t.sent = s.sent ∨
    ∃ cseq, t.sent = s.sent ++ [{ RequestMsg RTSP_TYPE_HEART_BEAT with _cseq := cseq }]

/-- The actions that keep the frame. -/
def Quiet : Action → Prop
  | .heartbeatCSeq => True
  | .heartbeatSend _ => True
  | .receive _ => True
  | .compare => True
  | .issue _ _ => False
  | .issueFails _ => False
  | .record => False
  | .wake _ _ _ => False
  | .cancel => False

theorem step_frame {a : Action} (hstep : s.step a = some t) (ha : Quiet a) : Frame s t := by
  cases a with
  | heartbeatCSeq =>
    obtain rfl := Option.some.inj hstep
    exact ⟨rfl, rfl, rfl, rfl, rfl, rfl, rfl, fun _ hr => hr, Or.inl rfl⟩
  | heartbeatSend goesOut =>
    obtain rfl := Option.some.inj hstep
    refine ⟨rfl, rfl, rfl, rfl, rfl, rfl, rfl, fun _ hr => hr, ?_⟩
    cases goesOut with
    | true => exact Or.inr ⟨s.m_CSeq, rfl⟩
    | false => exact Or.inl rfl
  | receive response =>
    simp only [step] at hstep
    split at hstep
    · obtain rfl := Option.some.inj hstep
      exact ⟨rfl, rfl, rfl, rfl, rfl, rfl, rfl, fun _ hr => List.mem_append_left _ hr, Or.inl rfl⟩
    · cases hstep
  | compare =>
    -- whatever the comparison says, only the handler moves on
    have hhandler : ∃ handler, t = { s with handler } := by
      simp only [step] at hstep
      split at hstep
      · split at hstep
        · exact ⟨_, (Option.some.inj hstep).symm⟩
        · exact ⟨_, (Option.some.inj hstep).symm⟩
        · exact ⟨_, (Option.some.inj hstep).symm⟩
      · cases hstep
    obtain ⟨handler, rfl⟩ := hhandler
    exact ⟨rfl, rfl, rfl, rfl, rfl, rfl, rfl, fun _ hr => hr, Or.inl rfl⟩
  | issue k connects => exact ha.elim
  | issueFails k => exact ha.elim
  | record => exact ha.elim
  | wake i timeout connects => exact ha.elim
  | cancel => exact ha.elim

/-- Nothing that the invariant is about has changed, but for responses received and operations that
no longer wait. -/
theorem Sound.congr (h : Sound s) (hreturned : t.returned = s.returned)
    (hwaiting : ∀ w ∈ t.waiting, w ∈ s.waiting) (hresponses : ∀ r ∈ s.responses, r ∈ t.responses)
    (hreceived : t.received = s.received)
    (hresult : t._setupScreenChannelResult = s._setupScreenChannelResult)
    (hcancelled : t._canncelled = s._canncelled) : Sound t := by
  constructor
  · intro e he
    exact h.returned e (hreturned ▸ he)
  · intro k cseq hw hr hp
    have hready : t.ready k = s.ready k := by rw [ready, ready, hreceived, hcancelled]
    have hpasses : t.passes k = s.passes k := by
      cases k <;> simp only [passes, hreceived, hresult]
    obtain ⟨r, hr', hans⟩ := h.waiting k cseq (hwaiting _ hw) (hready ▸ hr) (hpasses ▸ hp)
    exact ⟨r, hresponses r hr', hans⟩
  · intro hres
    rw [hreceived]
    exact h.result (hresult ▸ hres)

theorem Sound.frame (h : Sound s) (hf : Frame s t) : Sound t :=
  h.congr hf.returned (fun _ hw => hf.waiting ▸ hw) hf.responses hf.received hf.result hf.cancelled

theorem Sound.finish (h : Sound s) {k : RequestKind} {cseq : Int}
    (hans : s.passes k = true → s.Answered cseq) (connects : Bool) :
    Sound (s.finish k cseq connects) := by
  have hreturns : s.passes k = true → ∀ e ∈ s.returned ++ [⟨k, cseq, s.Answered cseq⟩],
      e.answered = true := fun hp e he => by
    rcases List.mem_append.mp he with he | he
    · exact h.returned e he
    · rw [List.mem_singleton.mp he]
      exact decide_eq_true (hans hp)
  unfold ProjectorAgent.finish
  by_cases hp : s.passes k = true
  · rw [if_pos hp]
    split
    · exact { h with returned := hreturns hp }
    · split
      · exact { h with returned := hreturns hp }
      · exact h
  · rw [if_neg hp]
    exact h

theorem Sound.issue (h : Sound s) {k : RequestKind} {connects : Bool}
    (hok : ¬ (s.ready k = true ∧ s.passes k = true)) (hstep : s.step (.issue k connects) = some t) :
    Sound t := by
  have hsend : Sound (s.Send k) :=
    h.congr rfl (fun _ hw => hw) (fun _ hr => hr) rfl rfl rfl
  have hready : (s.Send k).ready k = s.ready k := rfl
  have hpasses : (s.Send k).passes k = s.passes k := by cases k <;> rfl
  obtain rfl := Option.some.inj hstep
  rw [hready]
  by_cases hr : s.ready k = true
  · rw [if_pos hr]
    exact hsend.finish (fun hp => absurd ⟨hr, hpasses ▸ hp⟩ hok) connects
  · rw [if_neg hr]
    refine { hsend with waiting := ?_ }
    intro k' cseq hw hr' hp
    rcases List.mem_append.mp hw with hw | hw
    · exact hsend.waiting k' cseq hw hr' hp
    · obtain ⟨rfl, -⟩ := Prod.mk.inj (List.mem_singleton.mp hw)
      exact absurd hr' hr

theorem Sound.record (h : Sound s) {k : RequestKind} {response : IMsg}
    (hok : ∀ cseq, (k, cseq) ∈ s.waiting →
      s.Answered cseq ∨ k = .screen ∧ GetResult response = false) :
    Sound (s.record k response) := by
  refine { h with waiting := ?_, result := ?_ }
  · intro k' cseq hw hr hp
    by_cases hk : k' = k
    · subst hk
      rcases hok cseq hw with hans | ⟨rfl, hfail⟩
      · exact hans
      · rw [passes, ProjectorAgent.record, if_pos rfl, hfail] at hp
        cases hp
    · have hready : (s.record k response).ready k' = s.ready k' := by
        simp only [ready, ProjectorAgent.record, Function.update_of_ne hk]
      have hpasses : (s.record k response).passes k' = s.passes k' := by
        cases k' <;> simp only [passes, ProjectorAgent.record, Function.update_of_ne hk]
        exact if_neg (Ne.symm hk)
      exact h.waiting k' cseq hw (hready ▸ hr) (hpasses ▸ hp)
  · intro hres
    by_cases hk : k = .screen
    · subst hk
      simp only [ProjectorAgent.record, Function.update_self]
    · have hres' : s._setupScreenChannelResult = true := by
        rw [ProjectorAgent.record, if_neg hk] at hres
        exact hres
      have hscreen : RequestKind.screen ≠ k := Ne.symm hk
      simp only [ProjectorAgent.record, Function.update_of_ne hscreen]
      exact h.result hres'

theorem Sound.cancel (h : Sound s)
    (hok : ∀ cseq, (.resolution, cseq) ∈ s.waiting → s.Answered cseq) :
    Sound { s with _canncelled := true } := by
  refine { h with waiting := ?_ }
  intro k cseq hw _ hp
  by_cases hk : k = .resolution
  · subst hk
    exact hok cseq hw
  · have hpasses : s.passes k = true := by
      rw [← hp]
      cases k <;> rfl
    refine h.waiting k cseq hw ?_ hpasses
    rw [ready, h.received_of_passes hk hpasses, Bool.true_or]

theorem Sound.wake (h : Sound s) {i : Nat} {timeout connects : Bool}
    (hstep : s.step (.wake i timeout connects) = some t) : Sound t := by
  simp only [step] at hstep
  have hleft : Sound { s with waiting := s.waiting.eraseIdx i } :=
    h.congr rfl (fun _ hw => List.mem_of_mem_eraseIdx hw) (fun _ hr => hr) rfl rfl rfl
  cases hi : s.waiting[i]? with
  | none => simp [hi] at hstep
  | some w =>
    obtain ⟨k, cseq⟩ := w
    simp only [hi] at hstep
    by_cases hr : s.ready k = true
    · rw [if_pos hr] at hstep
      obtain rfl := Option.some.inj hstep
      refine hleft.finish (fun hp => ?_) connects
      have hpasses : s.passes k = true := by
        rw [← hp]
        cases k <;> rfl
      exact h.waiting k cseq (List.mem_of_getElem? hi) hr hpasses
    · rw [if_neg hr] at hstep
      split at hstep
      · exact Option.some.inj hstep ▸ hleft
      · exact Option.some.inj hstep ▸ h

/-- **One step** of any party. -/
theorem Sound.step {a : Action} (h : Sound s) (hok : s.Proper a) (hstep : s.step a = some t) :
    Sound t := by
  cases a with
  | issue k connects => exact h.issue hok hstep
  | issueFails k =>
    obtain rfl := Option.some.inj hstep
    exact h.congr rfl (fun _ hw => hw) (fun _ hr => hr) rfl rfl rfl
  | heartbeatCSeq => exact h.frame (step_frame hstep trivial)
  | heartbeatSend goesOut => exact h.frame (step_frame hstep trivial)
  | receive response => exact h.frame (step_frame hstep trivial)
  | compare => exact h.frame (step_frame hstep trivial)
  | record =>
    simp only [ProjectorAgent.step] at hstep
    split at hstep
    · rename_i k response hhandler
      obtain rfl := Option.some.inj hstep
      exact h.record (hok k response hhandler)
    · cases hstep
  | wake i timeout connects => exact h.wake hstep
  | cancel =>
    obtain rfl := Option.some.inj hstep
    exact h.cancel hok

/-- **Whoever returns was answered.** In every run of operations, responses, wake-ups, timeouts and
the destructor whose steps are proper, an operation that has returned normally had received an OK
with the CSeq of its request. -/
theorem returns_are_answered (as : List Action) (hok : Meets step Proper initial as)
    (hrun : run step initial as = some s) : ∀ e ∈ s.returned, e.answered = true :=
  (run_invariant (fun _ _ _ h hp hs => h.step hp hs) Sound.initial hok hrun).returned

/-- A screen channel is set up, answered OK. -/
theorem returns_are_answered_screen :
    ∃ s, run step initial [.issue .screen true, .receive (ResponseMsg 0 true []), .compare, .compare,
        .record, .wake 0 false true] = some s ∧
      s.returned = [⟨.screen, 0, true⟩] ∧ ∀ e ∈ s.returned, e.answered = true := by
  have hobs : (run step initial [.issue .screen true, .receive (ResponseMsg 0 true []), .compare,
      .compare, .record, .wake 0 false true]).map returned = some [⟨.screen, 0, true⟩] := by decide
  obtain ⟨s, hrun, hret⟩ := Option.map_eq_some_iff.mp hobs
  refine ⟨s, hrun, hret, returns_are_answered _ ?_ hrun⟩
  refine ⟨fun h => Bool.false_ne_true h.1, fun _ h => ?_⟩
  obtain rfl := Option.some.inj h
  refine ⟨trivial, fun _ h => ?_⟩
  obtain rfl := Option.some.inj h
  refine ⟨trivial, fun _ h => ?_⟩
  obtain rfl := Option.some.inj h
  refine ⟨trivial, fun _ h => ?_⟩
  obtain rfl := Option.some.inj h
  refine ⟨fun k response _ cseq hw => Or.inl ?_, fun _ h => ?_⟩
  · obtain ⟨-, rfl⟩ := Prod.mk.inj (List.mem_singleton.mp hw)
    exact ⟨_, List.mem_singleton.mpr rfl, rfl, rfl⟩
  · exact ⟨trivial, fun _ _ => trivial⟩

/-- Three ways to return unanswered: a FAIL taken for a success, a cancelled resolution, the
response to an earlier request of the kind. -/
theorem unanswered_returns :
    (run step initial [.issue .hid true, .receive (ResponseMsg 0 false []), .compare, .compare,
        .compare, .record, .wake 0 false true]).map returned = some [⟨.hid, 0, false⟩] ∧
      (run step initial [.issue .resolution true, .cancel, .wake 0 false true]).map returned =
        some [⟨.resolution, 0, false⟩] ∧
      (run step initial [.issue .dr true, .receive (ResponseMsg 0 true []), .compare, .compare,
        .compare, .compare, .record, .wake 0 false true, .issue .dr true]).map returned =
        some [⟨.dr, 0, true⟩, ⟨.dr, 1, false⟩] := by
  decide

end ProjectorAgent

end TiraRdp
