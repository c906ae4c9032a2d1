import TiraRdp.Projector.RedirectChannelFactory
import TiraRdp.Rtsp.IMsg

/-!
# `Session`: the projector's answers

Model of `projector/Session.cpp`: the `ReceivedRequestEvent` callback, request by request, and
`Stop`. What a request meets is its `Outcome`: which statement of the callback's `try` block throws
and what the exception says, whether the `Send` outside of the block goes through. `_rtsp` is the
list of the responses it has sent: `RtspSession::Send` leaves a response as it is.

Results: the responses to a request, in every run (`responses_by_outcome`); a run and the `Stop`
behind it dereference no null pointer iff the requests got through to their statements in the order
that `RedirectChannelFactory` relies on (`no_null_iff_made_and_linked`).
-/

namespace TiraRdp

open Lib RedirectChannelFactory

/-- A statement of a `try` block of the callback: the response, or one of the factory's. -/
inductive Step where
  | respond
  | factory (op : Op)
  deriving Repr, DecidableEq

/-- What a request meets. -/
structure Outcome where
  /-- the statement that throws, counted from the start of the block, and its `what()` -/
  fail : Option (Nat × Bytes)
  /-- does the `Send` in the handler, or of a resolution, return? -/
  answers : Bool
  /-- `SM_CXSCREEN` and `SM_CYSCREEN` -/
  metrics : Int × Int

/-- The statements that are done. -/
def Outcome.done (o : Outcome) (steps : List Step) : List Step :=
  match o.fail with
  | none => steps
  | some (n, _) => steps.take n

/-- What is thrown out of the block. -/
def Outcome.thrown (o : Outcome) (steps : List Step) : Option Bytes :=
  match o.fail with
  | none => none
  | some (n, what) => if n < steps.length then some what else none

/-- The text of a resolution. -/
def Outcome.resolution (o : Outcome) : Bytes :=
  decimal o.metrics.1 ++ ascii "x" ++ decimal o.metrics.2

/-- Why a session handles no more requests: the process has ended, or an exception has left the
callback. -/
inductive Ending where
  | process (e : ProcessEnd)
  | exception
  deriving Repr, DecidableEq

structure Session where
  m_RedirectChannelFactory : RedirectChannelFactory
  sent : List IMsg
  ended : Option Ending

namespace Session

/-- The `try` block of a request's branch; other requests have none. -/
def setup (cmd : Bytes) : Option (List Step) :=
  if cmd = ascii "SETUP_SCREEN_CHANNEL" then
    some (InitialRDPProjectorPipeline.map .factory ++ .respond :: SetupScreenPipeline.map .factory)
  else if cmd = ascii "SETUP_HID_CHANNEL" then some (.respond :: SetupHIDPipeline.map .factory)
  else if cmd = ascii "SETUP_DR_CHANNEL" then some (.respond :: SetupDrRedirect.map .factory)
  else if cmd = ascii "SETUP_AUDIOPLAYBACK_CHANNEL" then
    some (.respond :: SetupAudioPlaybackRedirect.map .factory)
  else if cmd = ascii "SETUP_TOUCHANDPEN_CHANNEL" then
    some (.respond :: SetupTouchAndPenRedirect.map .factory)
  else none

def initial : Session := ⟨.initial, [], none⟩

def Send (s : Session) (response : IMsg) : Session := { s with sent := s.sent ++ [response] }

def exec (s : Session) (request : IMsg) : Step → Session
  | .respond => s.Send (ResponseMsg request._cseq true [])
  | .factory op =>
    match s.m_RedirectChannelFactory.exec op with
    | .error e => { s with ended := some (.process e) }
    | .ok f => { s with m_RedirectChannelFactory := f }

def execAll (request : IMsg) : Session → List Step → Session
  | s, [] => s
  | s, step :: steps =>
    let t := s.exec request step
    if t.ended.isSome then t else execAll request t steps

/-- The `try` block with its handler. -/
def tryBlock (s : Session) (request : IMsg) (o : Outcome) (steps : List Step) : Session :=
  let t := s.execAll request (o.done steps)
  if t.ended.isSome then t
  else
    match o.thrown steps with
    | none => t
    | some what =>
      if o.answers then t.Send (ResponseMsg request._cseq false what)
      else { t with ended := some .exception }

/-- `ReceivedRequestEvent` (`:28-100`). -/
def ReceivedRequestEvent (s : Session) (request : IMsg) (o : Outcome) : Session :=
  if request._cmd = ascii "RESOLUTION" then
    if o.answers then s.Send (ResponseMsg request._cseq true o.resolution)
    else { s with ended := some .exception }
  else
    match setup request._cmd with
    | none => s
    | some steps => s.tryBlock request o steps

/-- The requests handled one after the other, as long as the session lasts. -/
def serve : Session → List (IMsg × Outcome) → Session
  | s, [] => s
  | s, (request, o) :: requests =>
    if s.ended.isSome then s else serve (s.ReceivedRequestEvent request o) requests

/-- `Stop` (`:108-112`). -/
def Stop (s : Session) : Session :=
  match s.ended with
  | some (.process _) => s
  | _ =>
    match s.m_RedirectChannelFactory.DestoryAllChannel with
    | .error e => { s with ended := some (.process e) }
    | .ok f => { s with m_RedirectChannelFactory := f }

/-! ## The statements of a `try` block -/

section Steps

variable {s : Session} {request : IMsg}

theorem execAll_append {steps steps' : List Step} (hs : s.ended = none) :
    s.execAll request (steps ++ steps') =
      if (s.execAll request steps).ended.isSome then s.execAll request steps
      else (s.execAll request steps).execAll request steps' := by
  induction steps generalizing s with
  | nil => simp [execAll, hs]
  | cons step steps ih =>
    rw [List.cons_append, execAll, execAll]
    by_cases hend : (s.exec request step).ended.isSome
    · simp [hend]
    · have hnone : (s.exec request step).ended = none := by simpa using hend
      simp only [hend, Bool.false_eq_true, if_false]
      exact ih hnone

theorem execAll_factory_sent (ops : List Op) (s : Session) :
    (s.execAll request (ops.map .factory)).sent = s.sent := by
  induction ops generalizing s with
  | nil => rfl
  | cons op ops ih =>
    have hsent : (s.exec request (.factory op)).sent = s.sent := by
      simp only [exec]
      split <;> rfl
    rw [List.map_cons, execAll]
    split
    · exact hsent
    · rw [ih, hsent]

/-- Every `try` block responds once, between two runs of the factory's statements. -/
theorem setup_shape {cmd : Bytes} {steps : List Step} (h : setup cmd = some steps) :
    ∃ before after : List Op,
      steps = before.map .factory ++ .respond :: after.map .factory := by
  unfold setup at h
  split at h
  · exact ⟨_, _, (Option.some.inj h).symm⟩
  · split at h
    · exact ⟨[], _, (Option.some.inj h).symm⟩
    · split at h
      · exact ⟨[], _, (Option.some.inj h).symm⟩
      · split at h
        · exact ⟨[], _, (Option.some.inj h).symm⟩
        · split at h
          · exact ⟨[], _, (Option.some.inj h).symm⟩
          · cases h

theorem takeWhile_respond (before : List Op) (rest : List Step) :
    (before.map Step.factory ++ .respond :: rest).takeWhile (· != .respond) =
      before.map .factory := by
  induction before with
  | nil => rfl
  | cons op ops ih => simp

/-- What is done of a block: a part of what precedes the response, or all that and the response
and a part of what follows it. -/
theorem done_cases (o : Outcome) (before after : List Op) :
    (∃ ops : List Op, o.done (before.map .factory ++ .respond :: after.map .factory) =
        ops.map .factory ∧ ∃ what,
        o.thrown (before.map .factory ++ .respond :: after.map .factory) = some what) ∨
      ∃ ops : List Op, o.done (before.map .factory ++ .respond :: after.map .factory) =
        before.map .factory ++ .respond :: ops.map .factory := by
  unfold Outcome.done Outcome.thrown
  cases o.fail with
  | none => exact Or.inr ⟨after, rfl⟩
  | some fail =>
    obtain ⟨n, what⟩ := fail
    dsimp only
    by_cases hn : n ≤ before.length
    · refine Or.inl ⟨before.take n, ?_, what, if_pos ?_⟩
      · rw [List.take_append_of_le_length (by simpa using hn), List.map_take]
      · simp only [List.length_append, List.length_map, List.length_cons]
        omega
    · obtain ⟨k, rfl⟩ : ∃ k, n = before.length + (k + 1) := ⟨n - before.length - 1, by omega⟩
      refine Or.inr ⟨after.take k, ?_⟩
      have hlen : before.length = (before.map Step.factory).length := by simp
      rw [hlen, List.take_length_add_append, List.take_succ_cons, List.map_take]

end Steps

/-! ## The responses to a request -/

/-- The block gets past its response. -/
def Responds (s : Session) (request : IMsg) (o : Outcome) (steps : List Step) : Prop :=
  .respond ∈ o.done steps ∧
    (s.execAll request (steps.takeWhile (· != .respond))).ended = none

/-- The whole block is done. -/
def Completes (s : Session) (request : IMsg) (o : Outcome) (steps : List Step) : Prop :=
  o.thrown steps = none ∧ (s.execAll request steps).ended = none

/-- The block is left by an exception before it gets past its response. -/
def FailsEarly (s : Session) (request : IMsg) (o : Outcome) (steps : List Step) (what : Bytes) :
    Prop :=
  .respond ∉ o.done steps ∧ o.thrown steps = some what ∧
    (s.execAll request (o.done steps)).ended = none

/-- The block is left by an exception behind its response. -/
def FailsLate (s : Session) (request : IMsg) (o : Outcome) (steps : List Step) (what : Bytes) :
    Prop :=
  .respond ∈ o.done steps ∧ o.thrown steps = some what ∧
    (s.execAll request (o.done steps)).ended = none

/-- What the handler sends: nothing when its `Send` throws. -/
def failure (request : IMsg) (o : Outcome) (what : Bytes) : List IMsg :=
  if o.answers then [ResponseMsg request._cseq false what] else []

/-- What is sent for a request. -/
structure Answered (s : Session) (request : IMsg) (o : Outcome) (responses : List IMsg) :
    Prop where
  response : ∀ m ∈ responses, ∃ result data, m = ResponseMsg request._cseq result data
  unknown : request._cmd ≠ ascii "RESOLUTION" → setup request._cmd = none → responses = []
  resolution : request._cmd = ascii "RESOLUTION" →
    responses = if o.answers then [ResponseMsg request._cseq true o.resolution] else []
  first : ∀ steps, setup request._cmd = some steps →
    (responses.head? = some (ResponseMsg request._cseq true []) ↔ s.Responds request o steps)
  whole : ∀ steps, setup request._cmd = some steps → s.Completes request o steps →
    responses = [ResponseMsg request._cseq true []]
  early : ∀ steps, setup request._cmd = some steps → ∀ what,
    s.FailsEarly request o steps what → responses = failure request o what
  late : ∀ steps, setup request._cmd = some steps → ∀ what, s.FailsLate request o steps what →
    responses = ResponseMsg request._cseq true [] :: failure request o what
  /-- the process has ended inside the block -/
  cut : ∀ steps, setup request._cmd = some steps →
    (s.execAll request (o.done steps)).ended ≠ none →
      responses = [] ∨ responses = [ResponseMsg request._cseq true []]

section Responses

variable {s : Session} {request : IMsg} {o : Outcome}

theorem fail_ne_ok (cseq : Int) (what data : Bytes) :
    ResponseMsg cseq false what ≠ ResponseMsg cseq true data := fun heq => by
  have h := congrArg GetResult heq
  rw [GetResult_ResponseMsg, GetResult_ResponseMsg] at h
  cases h

theorem setup_resolution {cmd : Bytes} (h : cmd = ascii "RESOLUTION") : setup cmd = none := by
  subst h
  decide

/-- What is sent up to the statements `ops` behind the response. -/
theorem execAll_respond_sent (hs : s.ended = none) (before ops : List Op)
    (hb : (s.execAll request (before.map .factory)).ended = none) :
    (s.execAll request (before.map .factory ++ .respond :: ops.map .factory)).sent =
      s.sent ++ [ResponseMsg request._cseq true []] := by
  have hresp : ((s.execAll request (before.map .factory)).exec request .respond).ended = none := hb
  rw [execAll_append hs, hb, Option.isSome_none, if_neg Bool.false_ne_true, execAll, hresp,
    Option.isSome_none, if_neg Bool.false_ne_true, execAll_factory_sent]
  exact congrArg (· ++ _) (execAll_factory_sent before s)

/-- What the handler adds to the responses. -/
theorem tryBlock_sent (s : Session) (request : IMsg) (o : Outcome) (steps : List Step) :
    ∃ handler, (s.tryBlock request o steps).sent =
        (s.execAll request (o.done steps)).sent ++ handler ∧
      (handler = [] ∨ ∃ what, o.thrown steps = some what ∧
        handler = [ResponseMsg request._cseq false what]) ∧
      (∀ what, o.thrown steps = some what → (s.execAll request (o.done steps)).ended = none →
        handler = failure request o what) ∧
      ((s.execAll request (o.done steps)).ended ≠ none → handler = []) := by
  unfold tryBlock failure
  generalize s.execAll request (o.done steps) = t
  dsimp only
  cases hend : t.ended with
  | some e => exact ⟨[], by simp, Or.inl rfl, nofun, fun _ => rfl⟩
  | none =>
    cases hthrown : o.thrown steps with
    | none => exact ⟨[], by simp, Or.inl rfl, nofun, fun _ => rfl⟩
    | some what =>
      cases hans : o.answers with
      | false => exact ⟨[], by simp, Or.inl rfl, fun _ _ _ => rfl, fun _ => rfl⟩
      | true =>
        refine ⟨[ResponseMsg request._cseq false what], by simp [Send], Or.inr ⟨what, rfl, rfl⟩,
          ?_, fun h => absurd rfl h⟩
        intro what' hwhat _
        rw [Option.some.inj hwhat]
        rfl

/-- The fields of `Answered` that are about a `try` block. -/
theorem Answered.of_setup {steps : List Step} (hsetup : setup request._cmd = some steps)
    {responses : List IMsg}
    (response : ∀ m ∈ responses, ∃ result data, m = ResponseMsg request._cseq result data)
    (first : responses.head? = some (ResponseMsg request._cseq true []) ↔
      s.Responds request o steps)
    (whole : s.Completes request o steps → responses = [ResponseMsg request._cseq true []])
    (early : ∀ what, s.FailsEarly request o steps what → responses = failure request o what)
    (late : ∀ what, s.FailsLate request o steps what →
      responses = ResponseMsg request._cseq true [] :: failure request o what)
    (cut : (s.execAll request (o.done steps)).ended ≠ none →
      responses = [] ∨ responses = [ResponseMsg request._cseq true []]) :
    s.Answered request o responses := by
  have hsteps : ∀ {steps'}, setup request._cmd = some steps' → steps' = steps := fun h =>
    Option.some.inj (h.symm.trans hsetup)
  refine ⟨response, ?_, ?_, ?_, ?_, ?_, ?_, ?_⟩
  · intro _ h
    rw [h] at hsetup
    cases hsetup
  · intro h
    rw [setup_resolution h] at hsetup
    cases hsetup
  · intro steps' h
    exact hsteps h ▸ first
  · intro steps' h
    exact hsteps h ▸ whole
  · intro steps' h
    exact hsteps h ▸ early
  · intro steps' h
    exact hsteps h ▸ late
  · intro steps' h
    exact hsteps h ▸ cut

theorem tryBlock_answered (hs : s.ended = none) {steps : List Step}
    (hsetup : setup request._cmd = some steps) :
    ∃ responses, (s.tryBlock request o steps).sent = s.sent ++ responses ∧
      s.Answered request o responses := by
  obtain ⟨before, after, rfl⟩ := setup_shape hsetup
  obtain ⟨handler, hsent, hhandler, hfailure, hcut⟩ := s.tryBlock_sent request o
    (before.map .factory ++ .respond :: after.map .factory)
  have hhead : handler.head? ≠ some (ResponseMsg request._cseq true []) := by
    rcases hhandler with rfl | ⟨what, -, rfl⟩
    · nofun
    · exact fun h => fail_ne_ok _ _ _ (Option.some.inj h)
  have hresponse : ∀ m ∈ handler, ∃ result data, m = ResponseMsg request._cseq result data := by
    rcases hhandler with rfl | ⟨what, -, rfl⟩
    · exact fun m hm => absurd hm List.not_mem_nil
    · exact fun m hm => ⟨false, what, List.mem_singleton.mp hm⟩
  rcases done_cases o before after with ⟨ops, hdone, what, hthrown⟩ | ⟨ops, hdone⟩
  · -- the exception comes before the response
    have hnot : Step.respond ∉ o.done (before.map .factory ++ .respond :: after.map .factory) := by
      rw [hdone]
      simp
    refine ⟨handler, by rw [hsent, hdone, execAll_factory_sent],
      .of_setup hsetup hresponse ?_ ?_ ?_ ?_ ?_⟩
    · exact iff_of_false hhead fun h => hnot h.1
    · intro h
      rw [h.1] at hthrown
      cases hthrown
    · exact fun what h => hfailure what h.2.1 h.2.2
    · exact fun what h => absurd h.1 hnot
    · exact fun h => Or.inl (hcut h)
  · have hmem : Step.respond ∈ o.done (before.map .factory ++ .respond :: after.map .factory) := by
      rw [hdone]
      simp
    by_cases hb : (s.execAll request (before.map .factory)).ended = none
    · refine ⟨ResponseMsg request._cseq true [] :: handler, ?_,
        .of_setup hsetup ?_ ?_ ?_ ?_ ?_ ?_⟩
      · rw [hsent, hdone, execAll_respond_sent hs before ops hb, List.append_assoc]
        rfl
      · exact List.forall_mem_cons.mpr ⟨⟨true, [], rfl⟩, hresponse⟩
      · refine iff_of_true rfl ⟨hmem, ?_⟩
        rwa [takeWhile_respond]
      · intro h
        rcases hhandler with rfl | ⟨what, hthrown, -⟩
        · rfl
        · rw [h.1] at hthrown
          cases hthrown
      · exact fun what h => absurd hmem h.1
      · exact fun what h => congrArg (_ :: ·) (hfailure what h.2.1 h.2.2)
      · exact fun h => Or.inr (congrArg (_ :: ·) (hcut h))
    · -- the process ends before the response
      have hstuck : ∀ rest : List Step, s.execAll request (before.map .factory ++ rest) =
          s.execAll request (before.map .factory) := fun rest => by
        rw [execAll_append hs, if_pos (Option.isSome_iff_ne_none.mpr hb)]
      have hended : (s.execAll request (o.done (before.map .factory ++
          .respond :: after.map .factory))).ended ≠ none := by
        rw [hdone, hstuck]
        exact hb
      refine ⟨handler, ?_, .of_setup hsetup hresponse ?_ ?_ ?_ ?_ ?_⟩
      · rw [hsent, hdone, hstuck, execAll_factory_sent]
      · refine iff_of_false hhead fun h => hb ?_
        rw [← takeWhile_respond before (after.map .factory)]
        exact h.2
      · intro h
        exact absurd ((congrArg ended (hstuck _)).symm.trans h.2) hb
      · exact fun what h => absurd hmem h.1
      · exact fun what h => absurd h.2.2 hended
      · exact fun h => Or.inl (hcut h)

/-- The fields of `Answered` that are about the other requests. -/
theorem Answered.of_no_setup (hsetup : setup request._cmd = none) {responses : List IMsg}
    (response : ∀ m ∈ responses, ∃ result data, m = ResponseMsg request._cseq result data)
    (unknown : request._cmd ≠ ascii "RESOLUTION" → responses = [])
    (resolution : request._cmd = ascii "RESOLUTION" →
      responses = if o.answers then [ResponseMsg request._cseq true o.resolution] else []) :
    s.Answered request o responses := by
  have hno : ∀ steps, setup request._cmd ≠ some steps := fun steps h => by
    rw [hsetup] at h
    cases h
  exact ⟨response, fun h _ => unknown h, resolution, fun _ h => absurd h (hno _),
    fun _ h => absurd h (hno _), fun _ h => absurd h (hno _), fun _ h => absurd h (hno _),
    fun _ h => absurd h (hno _)⟩

theorem ReceivedRequestEvent_answered (hs : s.ended = none) (request : IMsg) (o : Outcome) :
    ∃ responses, (s.ReceivedRequestEvent request o).sent = s.sent ++ responses ∧
      s.Answered request o responses := by
  unfold ReceivedRequestEvent
  by_cases hres : request._cmd = ascii "RESOLUTION"
  · rw [if_pos hres]
    cases hans : o.answers with
    | true =>
      refine ⟨[ResponseMsg request._cseq true o.resolution], rfl, .of_no_setup
        (setup_resolution hres) ?_ (fun h => absurd hres h) fun _ => ?_⟩
      · exact fun m hm => ⟨true, _, List.mem_singleton.mp hm⟩
      · rw [hans, if_pos rfl]
    | false =>
      refine ⟨[], (List.append_nil _).symm, .of_no_setup (setup_resolution hres)
        (fun m hm => absurd hm List.not_mem_nil) (fun _ => rfl) fun _ => ?_⟩
      rw [hans, if_neg Bool.false_ne_true]
  · rw [if_neg hres]
    cases hsetup : setup request._cmd with
    | none =>
      exact ⟨[], (List.append_nil _).symm, .of_no_setup hsetup
        (fun m hm => absurd hm List.not_mem_nil) (fun _ => rfl) fun h => absurd h hres⟩
    | some steps => exact tryBlock_answered hs hsetup

theorem serve_concat (request : IMsg) (o : Outcome) {requests : List (IMsg × Outcome)}
    (h : (s.serve requests).ended = none) :
    s.serve (requests ++ [(request, o)]) = (s.serve requests).ReceivedRequestEvent request o := by
  induction requests generalizing s with
  | nil =>
    have hs : s.ended = none := h
    simp [serve, hs]
  | cons r requests ih =>
    obtain ⟨request', o'⟩ := r
    rw [serve] at h
    rw [List.cons_append, serve, serve]
    cases hs : s.ended with
    | some e => simp [hs] at h
    | none =>
      rw [hs, Option.isSome_none, if_neg Bool.false_ne_true] at h
      exact ih h

/-- **The responses to a request**, whatever requests came before and whatever became of them. -/
theorem responses_by_outcome (requests : List (IMsg × Outcome)) (request : IMsg) (o : Outcome)
    (h : (initial.serve requests).ended = none) :
    ∃ responses, (initial.serve (requests ++ [(request, o)])).sent =
        (initial.serve requests).sent ++ responses ∧
      (initial.serve requests).Answered request o responses := by
  rw [serve_concat request o h]
  exact ReceivedRequestEvent_answered h request o

theorem responses_by_outcome_hid :
    ∃ responses, (initial.serve ([] ++ [({ RequestMsg (ascii "SETUP_HID_CHANNEL") with _cseq := 4 },
        ⟨none, true, (0, 0)⟩)])).sent = [] ++ responses ∧
      responses = [ResponseMsg 4 true []] := by
  obtain ⟨responses, hsent, hans⟩ := responses_by_outcome []
    { RequestMsg (ascii "SETUP_HID_CHANNEL") with _cseq := 4 } ⟨none, true, (0, 0)⟩ rfl
  exact ⟨responses, hsent, hans.whole _ rfl ⟨rfl, rfl⟩⟩

/-- The accept fails behind the response: two responses carry the CSeq, the first of them OK. -/
theorem failed_accept_answered_twice :
    (initial.serve [({ RequestMsg (ascii "SETUP_HID_CHANNEL") with _cseq := 4 },
        ⟨some (1, ascii "SocketFuncs::Accept aborted."), true, (0, 0)⟩)]).sent =
      [ResponseMsg 4 true [], ResponseMsg 4 false (ascii "SocketFuncs::Accept aborted.")] := by
  rfl

end Responses

/-! ## The statements that the requests get through to -/

def opsOf (steps : List Step) : List Op :=
  steps.filterMap fun step =>
    match step with
    | .respond => none
    | .factory op => some op

/-- What is done of the `try` block of a request. -/
def doneOps (request : IMsg) (o : Outcome) : List Op :=
  match setup request._cmd with
  | none => []
  | some steps => opsOf (o.done steps)

/-- Does an exception leave the callback? -/
def escapes (request : IMsg) (o : Outcome) : Bool :=
  if request._cmd = ascii "RESOLUTION" then !o.answers
  else
    match setup request._cmd with
    | none => false
    | some steps => (o.thrown steps).isSome && !o.answers

/-- The factory's statements that a sequence of requests gets through to. -/
def performed : List (IMsg × Outcome) → List Op
  | [] => []
  | (request, o) :: requests =>
    doneOps request o ++ if escapes request o then [] else performed requests

/-- The session is where the factory's statements lead; `e` tells whether it goes on. -/
def LedTo (s : Session) (r : Except ProcessEnd RedirectChannelFactory) (e : Option Ending) :
    Prop :=
  match r with
  | .error p => s.ended = some (.process p)
  | .ok f => s.m_RedirectChannelFactory = f ∧ s.ended = e

section Performed

variable {s : Session}

theorem execAll_ledTo (request : IMsg) {steps : List Step} (hs : s.ended = none) :
    (s.execAll request steps).LedTo (s.m_RedirectChannelFactory.execAll (opsOf steps)) none := by
  induction steps generalizing s with
  | nil => exact ⟨rfl, hs⟩
  | cons step steps ih =>
    cases step with
    | respond =>
      have hend : (s.exec request .respond).ended = none := hs
      have hexec : s.execAll request (.respond :: steps) =
          (s.exec request .respond).execAll request steps := by
        rw [execAll, hend]
        rfl
      rw [hexec]
      exact ih hend
    | factory op =>
      have hops : s.m_RedirectChannelFactory.execAll (opsOf (.factory op :: steps)) =
          s.m_RedirectChannelFactory.exec op >>= fun f => f.execAll (opsOf steps) :=
        List.foldlM_cons
      cases hop : s.m_RedirectChannelFactory.exec op with
      | error e =>
        have hexec : s.exec request (.factory op) = { s with ended := some (.process e) } := by
          simp only [exec, hop]
        rw [hops, hop, execAll, hexec]
        exact rfl
      | ok f =>
        have hexec : s.exec request (.factory op) = { s with m_RedirectChannelFactory := f } := by
          simp only [exec, hop]
        rw [hops, hop, execAll, hexec, hs]
        exact ih rfl

theorem ReceivedRequestEvent_ledTo (hs : s.ended = none) (request : IMsg) (o : Outcome) :
    (s.ReceivedRequestEvent request o).LedTo
      (s.m_RedirectChannelFactory.execAll (doneOps request o))
      (if escapes request o then some .exception else none) := by
  unfold ReceivedRequestEvent escapes doneOps
  by_cases hres : request._cmd = ascii "RESOLUTION"
  · rw [if_pos hres, if_pos hres, setup_resolution hres]
    cases o.answers with
    | true => exact ⟨rfl, hs⟩
    | false => exact ⟨rfl, rfl⟩
  · rw [if_neg hres, if_neg hres]
    cases setup request._cmd with
    | none => exact ⟨rfl, hs⟩
    | some steps =>
      have ht : (s.execAll request (o.done steps)).LedTo
          (s.m_RedirectChannelFactory.execAll (opsOf (o.done steps))) none :=
        execAll_ledTo request hs
      unfold tryBlock
      dsimp only
      revert ht
      generalize s.execAll request (o.done steps) = t
      intro ht
      cases hr : s.m_RedirectChannelFactory.execAll (opsOf (o.done steps)) with
      | error e =>
        rw [hr] at ht
        have hend : t.ended = some (.process e) := ht
        rw [hend]
        exact hend
      | ok f =>
        rw [hr] at ht
        obtain ⟨hf, hend⟩ := ht
        simp only [hend, Option.isSome_none, Bool.false_eq_true, if_false]
        split
        · rename_i hthrown
          simp only [hthrown, Option.isSome_none, Bool.false_and, Bool.false_eq_true, if_false]
          exact ⟨hf, hend⟩
        · rename_i what hthrown
          simp only [hthrown, Option.isSome_some, Bool.true_and]
          cases o.answers with
          | true => exact ⟨hf, hend⟩
          | false => exact ⟨hf, rfl⟩

theorem serve_of_ended (requests : List (IMsg × Outcome)) (h : s.ended ≠ none) :
    s.serve requests = s := by
  cases requests with
  | nil => rfl
  | cons r requests => exact if_pos (Option.isSome_iff_ne_none.mpr h)

theorem serve_ledTo {requests : List (IMsg × Outcome)} (hs : s.ended = none) :
    ∃ e, (s.serve requests).LedTo (s.m_RedirectChannelFactory.execAll (performed requests)) e ∧
      ∀ p, e ≠ some (.process p) := by
  induction requests generalizing s with
  | nil => exact ⟨none, ⟨rfl, hs⟩, nofun⟩
  | cons r requests ih =>
    obtain ⟨request, o⟩ := r
    have hstep := ReceivedRequestEvent_ledTo hs request o
    have hperformed : s.m_RedirectChannelFactory.execAll (performed ((request, o) :: requests)) =
        s.m_RedirectChannelFactory.execAll (doneOps request o) >>= fun f =>
          f.execAll (if escapes request o then [] else performed requests) := List.foldlM_append
    rw [serve, hs, Option.isSome_none, if_neg Bool.false_ne_true, hperformed]
    cases hr : s.m_RedirectChannelFactory.execAll (doneOps request o) with
    | error e =>
      rw [hr] at hstep
      have hend : (s.ReceivedRequestEvent request o).ended = some (.process e) := hstep
      refine ⟨none, ?_, nofun⟩
      rw [serve_of_ended requests (by rw [hend]; nofun)]
      exact hend
    | ok f =>
      rw [hr] at hstep
      obtain ⟨hf, hend⟩ := hstep
      cases hesc : escapes request o with
      | true =>
        rw [hesc] at hend
        refine ⟨some .exception, ?_, nofun⟩
        rw [serve_of_ended requests (by rw [hend]; nofun)]
        exact ⟨hf, hend⟩
      | false =>
        rw [hesc] at hend
        rw [if_neg Bool.false_ne_true, ← hf]
        exact ih hend

theorem setup_guarded {cmd : Bytes} {steps : List Step} (h : setup cmd = some steps) :
    Guarded [] (opsOf steps) := by
  unfold setup at h
  split at h
  · obtain rfl := Option.some.inj h
    decide
  · split at h
    · obtain rfl := Option.some.inj h
      decide
    · split at h
      · obtain rfl := Option.some.inj h
        decide
      · split at h
        · obtain rfl := Option.some.inj h
          decide
        · split at h
          · obtain rfl := Option.some.inj h
            decide
          · cases h

theorem done_prefix (o : Outcome) (steps : List Step) : o.done steps <+: steps := by
  unfold Outcome.done
  cases o.fail with
  | none => exact List.prefix_refl steps
  | some fail => exact List.take_prefix fail.1 steps

/-- What one request gets through to keeps the order of its setup function. -/
theorem doneOps_guarded (request : IMsg) (o : Outcome) : Guarded [] (doneOps request o) := by
  unfold doneOps
  cases hsetup : setup request._cmd with
  | none => trivial
  | some steps =>
    obtain ⟨rest, hrest⟩ := done_prefix o steps
    have hg := setup_guarded hsetup
    have hops : opsOf (o.done steps ++ rest) = opsOf (o.done steps) ++ opsOf rest :=
      List.filterMap_append
    rw [← hrest, hops] at hg
    exact (guarded_append.mp hg).1

theorem performed_guarded {requests : List (IMsg × Outcome)} : Guarded [] (performed requests) := by
  induction requests with
  | nil => trivial
  | cons r requests ih =>
    obtain ⟨request, o⟩ := r
    rw [performed]
    refine guarded_append.mpr ⟨doneOps_guarded request o, ?_⟩
    split
    · trivial
    · exact ih.mono fun _ h => absurd h List.not_mem_nil

/-- **Requests in any order, failing anywhere, and the `Stop` behind them.** No unset pointer is
dereferenced iff, among the statements that the requests get through to, every sink is made before
it is first linked and linked after it is last made. -/
theorem no_null_iff_made_and_linked (requests : List (IMsg × Outcome)) :
    (initial.serve requests).Stop.ended ≠ some (.process .nullDereference) ↔
      MadeAndLinked (performed requests) := by
  rw [← teardown_safe_iff performed_guarded]
  have hserve : ∃ e, (initial.serve requests).LedTo
      (RedirectChannelFactory.initial.execAll (performed requests)) e ∧
        ∀ p, e ≠ some (.process p) := serve_ledTo rfl
  obtain ⟨e, hled, hne⟩ := hserve
  generalize initial.serve requests = t at hled ⊢
  cases hr : RedirectChannelFactory.initial.execAll (performed requests) with
  | error p =>
    rw [hr] at hled
    have hend : t.ended = some (.process p) := hled
    have hstop : t.Stop = t := by rw [Stop, hend]
    rw [hstop, hend]
    have hbind : (Except.error p >>= DestoryAllChannel) = .error p := rfl
    rw [hbind]
    simp
  | ok f =>
    rw [hr] at hled
    obtain ⟨hf, hend⟩ := hled
    have hbind : (Except.ok f >>= DestoryAllChannel) = f.DestoryAllChannel := rfl
    rw [hbind]
    have hstop : t.Stop = match f.DestoryAllChannel with
        | .error p => { t with ended := some (.process p) }
        | .ok f' => { t with m_RedirectChannelFactory := f' } := by
      unfold Stop
      rw [hf]
      cases e with
      | none => rw [hend]
      | some e =>
        cases e with
        | process p => exact absurd rfl (hne p)
        | exception => rw [hend]
    rw [hstop]
    rcases f.DestoryAllChannel_cases with ⟨he, -⟩ | ⟨⟨f', hok⟩, -⟩
    · rw [he]
      simp
    · rw [hok]
      exact iff_of_true (fun h => hne _ (hend.symm.trans h)) nofun

/-- Without a SCREEN request there is no sink to link to; one whose accept fails leaves sinks
without a pipe to the teardown. -/
theorem unset_sink_dereferenced :
    (initial.serve [({ RequestMsg (ascii "SETUP_DR_CHANNEL") with _cseq := 1 },
        ⟨none, true, (0, 0)⟩)]).Stop.ended = some (.process .nullDereference) ∧
      (initial.serve [({ RequestMsg (ascii "SETUP_SCREEN_CHANNEL") with _cseq := 1 },
        ⟨some (7, ascii "SocketFuncs::Accept aborted."), true, (0, 0)⟩)]).Stop.ended =
          some (.process .nullDereference) :=
  ⟨rfl, rfl⟩

/-- The redirector's own order, nothing failing. -/
example : MadeAndLinked (performed ([ascii "SETUP_SCREEN_CHANNEL", ascii "SETUP_HID_CHANNEL",
    ascii "SETUP_DR_CHANNEL", ascii "SETUP_AUDIOPLAYBACK_CHANNEL",
    ascii "SETUP_TOUCHANDPEN_CHANNEL"].map fun cmd =>
      (RequestMsg cmd, ⟨none, true, (0, 0)⟩))) := by decide

end Performed

end Session

end TiraRdp
