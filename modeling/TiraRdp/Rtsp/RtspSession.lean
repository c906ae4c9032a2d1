import TiraRdp.Lib.Lts
import TiraRdp.Rtsp.IMsg
import TiraRdp.Utility.AsyncBase
import TiraRdp.Utility.Socket

/-!
# `RtspSession`: the receive loop

Model of `common/rtsp/RtspSession.cpp` as a system: the worker in `Workloop` and in the thread
function around it (`AsyncBase.cpp:85-99`), and what other threads do to the session meanwhile
(stop it, shut its socket down, send, run the watch dog of a release build). The bytes of the other
side wait in `m_Socket.incoming`; how much of them one `Recv` returns is up to the call's
environment, as is what the session's callbacks do with a message.

Ghost fields: the bytes received, the messages handed to `HandleMessage`, whether a stop was asked
for, how often `OnDisconnect` was called.

Results: of a stream of messages exactly the complete ones have been handed over, at every point of
a run, iff no chunk completes more than one (`served_iff_prompt`); the worker never leaves its loop
unreported iff every exception is one that `Recv` throws as an `ExceptionWithString`
(`reported_iff_contained`).
-/

namespace TiraRdp

open Lib Lib.Delimited Lib.Lts

/-- What handling a message meets: the garbage of `_cseq`, the socket, the callback's outcome. -/
structure HandleEnv where
  garbage : Int
  send : SocketEnv
  callback : Except Exn Unit

/-- A handler that returns, its answer sent. -/
def HandleEnv.answers : HandleEnv := ⟨0, .takes 100, .ok ()⟩

/-- Where the worker is in `Workloop`, or in the thread function around it. -/
inductive SessionPc where
  | canLoop
  | recv
  | handle (msg : Bytes)
  | disconnect
  | leaving (result : Except Exn Unit)
  | ended

/-- The worker has not left `Workloop`. -/
def SessionPc.InLoop : SessionPc → Prop
  | .canLoop => True
  | .recv => True
  | .handle _ => True
  | .disconnect => True
  | .leaving _ => False
  | .ended => False

instance : (pc : SessionPc) → Decidable pc.InLoop
  | .canLoop => .isTrue trivial
  | .recv => .isTrue trivial
  | .handle _ => .isTrue trivial
  | .disconnect => .isTrue trivial
  | .leaving _ => .isFalse id
  | .ended => .isFalse id

/-- The callbacks are only known to be set or not. -/
structure RtspSession where
  m_status : Ti_Worker_Status
  m_Socket : Socket
  m_Buf : Bytes
  m_IsAlive : Bool
  m_CSeq : Int
  ReceivedRequestEvent : Bool
  ReceivedResponseEvent : Bool
  DisconnectedByClientEvent : Bool
  worker : SessionPc
  terminated : Bool
  received : Bytes
  handed : List Bytes
  stopRequested : Bool
  disconnects : Nat

namespace RtspSession

/-- A session after `Start`, over a socket at whose other end these bytes are sent. -/
def started (incoming : Bytes) (onRequest onResponse onDisconnected : Bool) : RtspSession where
  m_status := (AsyncBase.StartAsyncBase .Status_Stopped).1
  m_Socket := .receiving incoming
  m_Buf := []
  m_IsAlive := true
  m_CSeq := 0
  ReceivedRequestEvent := onRequest
  ReceivedResponseEvent := onResponse
  DisconnectedByClientEvent := onDisconnected
  worker := .canLoop
  terminated := false
  received := []
  handed := []
  stopRequested := false
  disconnects := 0

/-- `Send` (`:106-115`): requests get their CSeq here. -/
def Send (s : RtspSession) (env : SocketEnv) (msg : IMsg) : Except Exn Unit × RtspSession :=
  let isRequest := msg._type == RTSP_TYPE_REQ
  let msg := if isRequest then { msg with _cseq := s.m_CSeq } else msg
  let m_CSeq := if isRequest then i32 (s.m_CSeq + 1) else s.m_CSeq
  let sent := s.m_Socket.Send env msg.ToString
  (sent.1.map fun _ => (), { s with m_CSeq, m_Socket := sent.2 })

/-- `OnReceiveResponse` (`:117-121`). -/
def OnReceiveResponse (s : RtspSession) (env : HandleEnv) (_response : IMsg) :
    Except Exn Unit × RtspSession :=
  if s.ReceivedResponseEvent then (env.callback, s) else (.ok (), s)

/-- `OnReceiveRequest` (`:123-131`). -/
def OnReceiveRequest (s : RtspSession) (env : HandleEnv) (request : IMsg) :
    Except Exn Unit × RtspSession :=
  if request._cmd = RTSP_TYPE_HEART_BEAT then s.Send env.send (ResponseMsg request._cseq true [])
  else if s.ReceivedRequestEvent then (env.callback, s)
  else (.error (.exceptionWithString "Type error"), s)

/-- `OnReceive` (`:50-58`). -/
def OnReceive (s : RtspSession) (env : HandleEnv) (msg : IMsg) : Except Exn Unit × RtspSession :=
  if msg._type = RTSP_TYPE_REQ then s.OnReceiveRequest env msg
  else if (findSub RTSP_TYPE_RESP msg._type).isSome then s.OnReceiveResponse env msg
  else (.error (.exceptionWithString "error message"), s)

/-- `HandleMessage` (`:100-104`). -/
def HandleMessage (s : RtspSession) (env : HandleEnv) (msg : IMsg) :
    Except Exn Unit × RtspSession :=
  match s.OnReceive env msg with
  | (.error e, s) => (.error e, s)
  | (.ok _, s) => (.ok (), { s with m_IsAlive := true })

/-- The lines `:90-94` of the loop: what they cut off the buffer as a message, and what they leave
in it. `substr` throws on a position behind the end. -/
def extract (m_Buf : Bytes) : Except Exn (Option (Bytes × Bytes)) :=
  let endPos := intOfPos (findSub RTSP_MSG_END m_Buf)
  if endPos = -1 then .ok none
  else if endPos + RTSP_MSG_END.length < 0 then .error .other
  else
    let n := (endPos + RTSP_MSG_END.length).toNat
    .ok (some (m_Buf.take n, m_Buf.drop n))

/-- What can happen next. -/
inductive Action where
  | canLoop
  | recv (env : SocketEnv)
  | handle (env : HandleEnv)
  | disconnect (callback : Except Exn Unit)
  | exit
  | StopAsyncBase
  | Shutdown
  | Send (env : SocketEnv) (msg : IMsg)
  | checkAlive

/-- `m_Socket->Recv(…)` and what the loop does with its result, up to the call of
`HandleMessage`. -/
def recvStep (s : RtspSession) (env : SocketEnv) : RtspSession :=
  match s.m_Socket.Recv env RTSP_MSG_MAX_SIZE with
  | (.error e, m_Socket) =>
    if e.isExceptionWithString then { s with m_Socket, worker := .disconnect }
    else { s with m_Socket, worker := .leaving (.error e) }
  | (.ok buf, m_Socket) =>
    let m_Buf := s.m_Buf ++ buf
    let received := s.received ++ buf
    match extract m_Buf with
    | .error e => { s with m_Socket, m_Buf, received, worker := .leaving (.error e) }
    | .ok none => { s with m_Socket, m_Buf, received, worker := .canLoop }
    | .ok (some (msg, rest)) =>
      { s with
        m_Socket, m_Buf := rest, received
        handed := s.handed ++ [msg]
        worker := .handle msg }

/-- One step of the system. A process that was terminated takes none. -/
def step (s : RtspSession) (a : Action) : Option RtspSession :=
  if s.terminated then none
  else
    match a, s.worker with
    | .canLoop, .canLoop =>
      match AsyncBase.CanLoopContinue s.m_status with
      | none => none
      | some true => some { s with worker := .recv }
      | some false => some { s with worker := .leaving (.ok ()) }
    | .recv env, .recv => some (s.recvStep env)
    | .handle env, .handle msg =>
      match s.HandleMessage env (.parse env.garbage msg) with
      | (.error e, s) => some { s with worker := .leaving (.error e) }
      | (.ok _, s) => some { s with worker := .canLoop }
    | .disconnect callback, .disconnect =>
      -- `OnDisconnect`, then `break`
      some { s with
        disconnects := s.disconnects + 1
        worker := .leaving (if s.DisconnectedByClientEvent then callback else .ok ()) }
    | .exit, .leaving result =>
      match AsyncBase.threadExit s.m_status result with
      | some m_status => some { s with m_status, worker := .ended }
      | none => some { s with terminated := true }
    | .StopAsyncBase, _ =>
      some { s with m_status := (AsyncBase.StopAsyncBase s.m_status).1, stopRequested := true }
    | .Shutdown, _ =>
      if s.m_Socket.m_IsAlive then
        some { s with m_Socket := { s.m_Socket with
          m_IsAlive := false, m_IsCancelRead := true, m_IsCancelWrite := true } }
      else some s
    | .Send env msg, _ => some (s.Send env msg).2
    | .checkAlive, _ =>
      -- what the watch dog tells the client is not told by the worker
      some { s with m_IsAlive := false }
    | _, _ => none

/-! ## What handling a message leaves alone -/

/-- The parts of a session that only its receive loop and `Stop` change. -/
structure Frame (s s' : RtspSession) : Prop where
  status : s'.m_status = s.m_status
  buf : s'.m_Buf = s.m_Buf
  incoming : s'.m_Socket.incoming = s.m_Socket.incoming
  worker : s'.worker = s.worker
  received : s'.received = s.received
  handed : s'.handed = s.handed
  stopRequested : s'.stopRequested = s.stopRequested
  disconnects : s'.disconnects = s.disconnects

theorem Frame.rfl {s : RtspSession} : Frame s s := ⟨.refl _, .refl _, .refl _, .refl _, .refl _,
  .refl _, .refl _, .refl _⟩

theorem Send_frame (s : RtspSession) (env : SocketEnv) (msg : IMsg) :
    Frame s (s.Send env msg).2 :=
  ⟨.refl _, .refl _, s.m_Socket.Send_incoming env _, .refl _, .refl _, .refl _, .refl _, .refl _⟩

theorem OnReceive_frame (s : RtspSession) (env : HandleEnv) (msg : IMsg) :
    Frame s (s.OnReceive env msg).2 := by
  unfold OnReceive OnReceiveRequest OnReceiveResponse
  by_cases hreq : msg._type = RTSP_TYPE_REQ
  · rw [if_pos hreq]
    by_cases hbeat : msg._cmd = RTSP_TYPE_HEART_BEAT
    · rw [if_pos hbeat]
      exact s.Send_frame _ _
    · rw [if_neg hbeat]
      split <;> exact .rfl
  · rw [if_neg hreq]
    split
    · split <;> exact .rfl
    · exact .rfl

theorem HandleMessage_frame (s : RtspSession) (env : HandleEnv) (msg : IMsg) :
    Frame s (s.HandleMessage env msg).2 := by
  have h := s.OnReceive_frame env msg
  unfold HandleMessage
  cases hr : s.OnReceive env msg with
  | mk r s' =>
    rw [hr] at h
    cases r with
    | error e => exact h
    | ok _ => exact { h with }

/-- A message that is handled without an exception: an answered heartbeat, a request or a response
whose callback returns. -/
def Handles (s : RtspSession) (env : HandleEnv) (msg : IMsg) : Prop :=
  if msg._type = RTSP_TYPE_REQ then
    if msg._cmd = RTSP_TYPE_HEART_BEAT then s.m_Socket.Sends env.send
    else s.ReceivedRequestEvent = true ∧ env.callback = .ok ()
  else
    (findSub RTSP_TYPE_RESP msg._type).isSome ∧
      (s.ReceivedResponseEvent = true → env.callback = .ok ())

theorem Send_ok_iff (s : RtspSession) (env : SocketEnv) (msg : IMsg) :
    (s.Send env msg).1 = .ok () ↔ s.m_Socket.Sends env := by
  rw [← s.m_Socket.Send_ok_iff env
    (if msg._type == RTSP_TYPE_REQ then { msg with _cseq := s.m_CSeq } else msg).ToString]
  unfold Send
  simp only
  cases (s.m_Socket.Send env
      (if msg._type == RTSP_TYPE_REQ then { msg with _cseq := s.m_CSeq } else msg).ToString).1 with
  | error e => simp [Except.map]
  | ok n => simp [Except.map]

theorem OnReceive_ok_iff (s : RtspSession) (env : HandleEnv) (msg : IMsg) :
    (s.OnReceive env msg).1 = .ok () ↔ s.Handles env msg := by
  unfold OnReceive OnReceiveRequest OnReceiveResponse Handles
  by_cases hreq : msg._type = RTSP_TYPE_REQ
  · rw [if_pos hreq, if_pos hreq]
    by_cases hbeat : msg._cmd = RTSP_TYPE_HEART_BEAT
    · rw [if_pos hbeat, if_pos hbeat]
      exact s.Send_ok_iff _ _
    · rw [if_neg hbeat, if_neg hbeat]
      by_cases hset : s.ReceivedRequestEvent = true
      · simp [hset]
      · simp [hset]
  · rw [if_neg hreq, if_neg hreq]
    by_cases hresp : (findSub RTSP_TYPE_RESP msg._type).isSome
    · rw [if_pos hresp]
      by_cases hset : s.ReceivedResponseEvent = true
      · simp [hset, hresp]
      · simp [hset, hresp]
    · simp [hresp]

theorem HandleMessage_ok_iff (s : RtspSession) (env : HandleEnv) (msg : IMsg) :
    (s.HandleMessage env msg).1 = .ok () ↔ s.Handles env msg := by
  rw [← s.OnReceive_ok_iff env msg]
  unfold HandleMessage
  cases hr : s.OnReceive env msg with
  | mk r s' => cases r <;> simp

/-! ## Which messages are handed over -/

/-- At most one message is complete, and its terminator stands where an `int` can say so. -/
def AtMostOne (m_Buf : Bytes) : Prop :=
  ∀ n, findSub RTSP_MSG_END m_Buf = some n →
    n < 2 ^ 31 ∧ findSub RTSP_MSG_END (m_Buf.drop (n + RTSP_MSG_END.length)) = none

/-- What the loop leaves in the buffer. -/
def leftover (m_Buf : Bytes) : Bytes :=
  match extract m_Buf with
  | .ok (some (_, rest)) => rest
  | _ => m_Buf

theorem extract_none {m_Buf : Bytes} (h : findSub RTSP_MSG_END m_Buf = none) :
    extract m_Buf = .ok none := by
  unfold extract
  rw [h]
  rfl

theorem extract_some {m_Buf : Bytes} {n : Nat} (h : findSub RTSP_MSG_END m_Buf = some n)
    (hn : n < 2 ^ 31) :
    extract m_Buf = .ok (some (m_Buf.take (n + RTSP_MSG_END.length),
      m_Buf.drop (n + RTSP_MSG_END.length))) := by
  have hpos : intOfPos (some n) = n := i32_of_lt (by omega) (by omega)
  have hlen : RTSP_MSG_END.length = 4 := rfl
  unfold extract
  rw [h, hpos, hlen]
  simp only
  rw [if_neg (by omega), if_neg (by omega)]
  congr

/-- A position that an `int` misplaces is kept as an earlier one. -/
theorem intOfPos_add_le {n : Nat} (h : 2 ^ 31 ≤ n) : intOfPos (some n) + 4 ≤ n := by
  have hle := i32_add_le h
  have hint : intOfPos (some n) = i32 n := rfl
  rw [hint]
  omega

/-- The loop leaves the buffer as it is, or cuts it at the `int` it has for the end. -/
theorem leftover_cases (m_Buf : Bytes) : leftover m_Buf = m_Buf ∨
    0 ≤ intOfPos (findSub RTSP_MSG_END m_Buf) + RTSP_MSG_END.length ∧
      leftover m_Buf =
        m_Buf.drop (intOfPos (findSub RTSP_MSG_END m_Buf) + RTSP_MSG_END.length).toNat := by
  unfold leftover extract
  generalize intOfPos (findSub RTSP_MSG_END m_Buf) = endPos
  generalize RTSP_MSG_END.length = len
  by_cases hnpos : endPos = -1
  · exact Or.inl (by simp only [if_pos hnpos])
  · by_cases hneg : endPos + len < 0
    · exact Or.inl (by simp only [if_neg hnpos, if_pos hneg])
    · exact Or.inr ⟨by omega, by simp only [if_neg hnpos, if_neg hneg]⟩

/-- **A second complete message stays behind**, and so does one whose end an `int` misplaces. -/
theorem findSub_leftover {m_Buf : Bytes} (h : ¬ AtMostOne m_Buf) :
    findSub RTSP_MSG_END (leftover m_Buf) ≠ none := by
  unfold AtMostOne at h
  push Not at h
  obtain ⟨n, hn, hbad⟩ := h
  rcases Nat.lt_or_ge n (2 ^ 31) with hlt | hge
  · rw [leftover, extract_some hn hlt]
    exact hbad hlt
  · rcases leftover_cases m_Buf with hall | ⟨hpos, hcut⟩
    · rw [hall, hn]
      exact Option.some_ne_none n
    · -- the cut is before the terminator, which stays in the rest
      have hle := findSub_le hn
      have hbefore := intOfPos_add_le hge
      rw [hn] at hpos hcut
      have hlen : RTSP_MSG_END.length = 4 := rfl
      rw [hlen] at hpos hcut
      generalize intOfPos (some n) = endPos at hpos hcut hbefore
      have hcutle : (endPos + (4 : Nat)).toNat ≤ n := by omega
      generalize (endPos + (4 : Nat)).toNat = cut at hcut hcutle
      have hocc : RTSP_MSG_END <+: (m_Buf.drop cut).drop (n - cut) := by
        rw [List.drop_drop, Nat.add_sub_of_le hcutle]
        exact prefix_drop_of_findSub hn
      obtain ⟨k, -, hk⟩ := exists_findSub_of_prefix_drop (by rw [List.length_drop]; omega) hocc
      rw [hcut, hk]
      exact Option.some_ne_none k

/-- The step neither receives nor hands over anything. -/
structure SameStream (s t : RtspSession) : Prop where
  buf : t.m_Buf = s.m_Buf
  incoming : t.m_Socket.incoming = s.m_Socket.incoming
  received : t.received = s.received
  handed : t.handed = s.handed

variable {s t : RtspSession}

/-- Only the worker's `Recv` changes the stream. -/
theorem step_stream {a : Action} (hs : step s a = some t) :
    (∃ env, a = .recv env ∧ s.worker = .recv ∧ t = s.recvStep env) ∨
      (∀ env, a ≠ .recv env) ∧ SameStream s t := by
  unfold step at hs
  by_cases hterm : s.terminated = true
  · simp [hterm] at hs
  rw [if_neg hterm] at hs
  cases a with
  | recv env =>
    cases hpc : s.worker with
    | recv =>
      simp only [hpc, Option.some.injEq] at hs
      exact Or.inl ⟨env, rfl, rfl, hs.symm⟩
    | _ => simp [hpc] at hs
  | canLoop =>
    cases hpc : s.worker with
    | canLoop =>
      simp only [hpc] at hs
      split at hs
      · cases hs
      · cases hs
        exact Or.inr ⟨nofun, rfl, rfl, rfl, rfl⟩
      · cases hs
        exact Or.inr ⟨nofun, rfl, rfl, rfl, rfl⟩
    | _ => simp [hpc] at hs
  | handle env =>
    cases hpc : s.worker with
    | handle msg =>
      have hframe := s.HandleMessage_frame env (.parse env.garbage msg)
      simp only [hpc] at hs
      split at hs
      all_goals
        rename_i heq
        rw [heq] at hframe
        cases hs
        exact Or.inr ⟨nofun, hframe.buf, hframe.incoming, hframe.received, hframe.handed⟩
    | _ => simp [hpc] at hs
  | disconnect callback =>
    cases hpc : s.worker with
    | disconnect =>
      simp only [hpc, Option.some.injEq] at hs
      subst hs
      exact Or.inr ⟨nofun, rfl, rfl, rfl, rfl⟩
    | _ => simp [hpc] at hs
  | exit =>
    cases hpc : s.worker with
    | leaving result =>
      simp only [hpc] at hs
      split at hs
      all_goals
        cases hs
        exact Or.inr ⟨nofun, rfl, rfl, rfl, rfl⟩
    | _ => simp [hpc] at hs
  | StopAsyncBase =>
    simp only [Option.some.injEq] at hs
    subst hs
    exact Or.inr ⟨nofun, rfl, rfl, rfl, rfl⟩
  | Shutdown =>
    simp only at hs
    split at hs
    all_goals
      cases hs
      exact Or.inr ⟨nofun, rfl, rfl, rfl, rfl⟩
  | Send env msg =>
    simp only [Option.some.injEq] at hs
    have hframe := s.Send_frame env msg
    rw [hs] at hframe
    exact Or.inr ⟨nofun, hframe.buf, hframe.incoming, hframe.received, hframe.handed⟩
  | checkAlive =>
    simp only [Option.some.injEq] at hs
    subst hs
    exact Or.inr ⟨nofun, rfl, rfl, rfl, rfl⟩

/-- What a `Recv` of the loop does to the stream. -/
theorem recvStep_cases (s : RtspSession) (env : SocketEnv) :
    (∃ e m_Socket, s.m_Socket.Recv env RTSP_MSG_MAX_SIZE = (.error e, m_Socket) ∧
      SameStream s (s.recvStep env)) ∨
    ∃ buf m_Socket, s.m_Socket.Recv env RTSP_MSG_MAX_SIZE = (.ok buf, m_Socket) ∧
      s.m_Socket.incoming = buf ++ (s.recvStep env).m_Socket.incoming ∧
      (s.recvStep env).received = s.received ++ buf ∧
      (s.recvStep env).m_Buf = leftover (s.m_Buf ++ buf) ∧
      (s.recvStep env).handed = s.handed ++
        (match extract (s.m_Buf ++ buf) with
          | .ok (some (msg, _)) => [msg]
          | _ => []) := by
  unfold recvStep leftover
  rcases s.m_Socket.Recv_cases env RTSP_MSG_MAX_SIZE with
    ⟨e, m_Socket, hrecv, hin, -⟩ | ⟨buf, m_Socket, hrecv, -, hin, -, -⟩
  · refine Or.inl ⟨e, m_Socket, hrecv, ?_⟩
    rw [hrecv]
    by_cases he : e.isExceptionWithString = true
    · simp only [if_pos he]
      exact ⟨rfl, hin, rfl, rfl⟩
    · simp only [if_neg he]
      exact ⟨rfl, hin, rfl, rfl⟩
  · refine Or.inr ⟨buf, m_Socket, hrecv, ?_⟩
    rw [hrecv]
    simp only
    cases extract (s.m_Buf ++ buf) with
    | error e => exact ⟨hin, rfl, rfl, (List.append_nil _).symm⟩
    | ok cut =>
      cases cut with
      | none => exact ⟨hin, rfl, rfl, (List.append_nil _).symm⟩
      | some cut => exact ⟨hin, rfl, rfl, rfl⟩

/-- All messages that have arrived completely are handed over, in order, and what is in the buffer
stops short of the next. -/
def Served (msgs : List Bytes) (s : RtspSession) : Prop :=
  ∃ j, s.handed = msgs.take j ∧ s.received = (msgs.take j).flatten ++ s.m_Buf ∧
    Short msgs j s.m_Buf

/-- A `Recv` whose bytes complete at most one message. -/
def Prompt (s : RtspSession) : Action → Prop
  | .recv env => s.worker = .recv → ∀ buf m_Socket,
      s.m_Socket.Recv env RTSP_MSG_MAX_SIZE = (.ok buf, m_Socket) → AtMostOne (s.m_Buf ++ buf)
  | _ => True

/-- **The invariant**: what has been received splits into what was handed over and the buffer. -/
structure Serving (msgs : List Bytes) (s : RtspSession) : Prop where
  splits : Splits RTSP_MSG_END s.received s.handed s.m_Buf
  stream : s.received ++ s.m_Socket.incoming = msgs.flatten

theorem RTSP_MSG_END_ne_nil : RTSP_MSG_END ≠ [] := by decide

theorem SameStream.serving {msgs : List Bytes} (h : SameStream s t) (hs : Serving msgs s) :
    Serving msgs t :=
  ⟨by rw [h.received, h.handed, h.buf]; exact hs.splits,
    by rw [h.received, h.incoming]; exact hs.stream⟩

theorem Serving.served {msgs : List Bytes} (hunit : ∀ m ∈ msgs, IsUnit RTSP_MSG_END m)
    (h : Serving msgs s) : Served msgs s := by
  obtain ⟨j, hj, hshort⟩ :=
    splits_prefix RTSP_MSG_END_ne_nil hunit ⟨_, h.stream⟩ h.splits
  refine ⟨j, hj, ?_, hshort⟩
  rw [← hj]
  exact h.splits.eq

theorem step_serving {msgs : List Bytes} {a : Action} (h : Serving msgs s) (hp : s.Prompt a)
    (hs : step s a = some t) : Serving msgs t := by
  rcases step_stream hs with ⟨env, rfl, hpc, rfl⟩ | ⟨-, hsame⟩
  · rcases s.recvStep_cases env with
      ⟨-, -, -, hsame⟩ | ⟨buf, m_Socket, hrecv, hin, hrec, hbuf, hhanded⟩
    · exact hsame.serving h
    · have hone := hp hpc buf m_Socket hrecv
      refine ⟨?_, by rw [hrec, List.append_assoc, ← hin]; exact h.stream⟩
      rw [hrec, hbuf, hhanded]
      unfold leftover
      cases hfind : findSub RTSP_MSG_END (s.m_Buf ++ buf) with
      | none =>
        rw [extract_none hfind]
        simpa using h.splits.more hfind
      | some n =>
        rw [extract_some hfind (hone n hfind).1]
        exact h.splits.emit hfind (hone n hfind).2
  · exact hsame.serving h

/-- Once a chunk completes a second message, what is left in the buffer is not a beginning. -/
theorem step_not_served {msgs : List Bytes} {a : Action}
    (hunit : ∀ m ∈ msgs, IsUnit RTSP_MSG_END m) (h : Serving msgs s) (hp : ¬ s.Prompt a)
    (hs : step s a = some t) : ¬ Served msgs t := by
  rintro ⟨j, -, hrec', hshort⟩
  rcases step_stream hs with ⟨env, rfl, hpc, rfl⟩ | ⟨hne, -⟩
  · simp only [Prompt, not_forall] at hp
    obtain ⟨-, buf, m_Socket, hrecv, hmany⟩ := hp
    rcases s.recvStep_cases env with
      ⟨e, m_Socket', hrecv', -⟩ | ⟨buf', m_Socket', hrecv', hin, hrec, hbuf, -⟩
    · rw [hrecv] at hrecv'
      cases hrecv'
    · rw [hrecv] at hrecv'
      cases hrecv'
      have hpre : (msgs.take j).flatten ++ (s.recvStep env).m_Buf <+: msgs.flatten := by
        rw [← hrec', hrec, ← h.stream, hin, ← List.append_assoc]
        exact List.prefix_append _ _
      refine findSub_leftover hmany ?_
      rw [← hbuf]
      exact findSub_short RTSP_MSG_END_ne_nil hunit hpre hshort
  · refine hp ?_
    cases a with
    | recv env => exact absurd rfl (hne env)
    | _ => trivial

/-- **The complete messages are handed over at every point of a run iff each `Recv` of the run
completes at most one**, for every stream of messages and every way it is cut into chunks. -/
theorem served_iff_prompt (msgs : List IMsg)
    (hunit : ∀ m ∈ msgs, IsUnit RTSP_MSG_END m.ToString)
    (onRequest onResponse onDisconnected : Bool)
    {as : List Action}
    (hrun : run step (started (msgs.map IMsg.ToString).flatten onRequest onResponse onDisconnected)
      as = some t) :
    Meets step Prompt
        (started (msgs.map IMsg.ToString).flatten onRequest onResponse onDisconnected) as ↔
      Along step (Served (msgs.map IMsg.ToString))
        (started (msgs.map IMsg.ToString).flatten onRequest onResponse onDisconnected) as := by
  have hunits : ∀ u ∈ msgs.map IMsg.ToString, IsUnit RTSP_MSG_END u := by
    intro u hu
    obtain ⟨m, hm, rfl⟩ := List.mem_map.mp hu
    exact hunit m hm
  have hstart : Serving (msgs.map IMsg.ToString)
      (started (msgs.map IMsg.ToString).flatten onRequest onResponse onDisconnected) :=
    ⟨Splits.nil RTSP_MSG_END_ne_nil, rfl⟩
  exact meets_iff_along (p := fun _ => True) (fun _ h => h.served hunits)
    (fun _ _ _ h _ hp hs => step_serving h hp hs)
    (fun _ _ _ h _ hp hs => step_not_served hunits h hp hs) hstart (fun _ _ => trivial) hrun

/-- The heartbeat request with that CSeq. -/
def heartbeat (cseq : Int) : IMsg := { RequestMsg RTSP_TYPE_HEART_BEAT with _cseq := cseq }

/-- Two heartbeats, the first one cut inside its terminator. -/
theorem served_iff_prompt_heartbeats :
    let msgs := [heartbeat 0, heartbeat 1]
    let s₀ := started (msgs.map IMsg.ToString).flatten true true true
    let as : List Action := [.canLoop, .recv (.takes 41), .canLoop, .recv (.takes 1),
      .handle .answers, .canLoop, .recv (.takes 42), .handle .answers]
    (∃ t, run step s₀ as = some t ∧ t.handed = msgs.map IMsg.ToString ∧ t.m_Buf = []) ∧
      (Meets step Prompt s₀ as ↔ Along step (Served (msgs.map IMsg.ToString)) s₀ as) := by
  intro msgs s₀ as
  have hunit : ∀ m ∈ msgs, IsUnit RTSP_MSG_END m.ToString := by decide
  have hobs : (run step s₀ as).map (fun t => (t.handed, t.m_Buf)) =
      some (msgs.map IMsg.ToString, []) := by decide
  obtain ⟨t, ht, hseen⟩ := Option.map_eq_some_iff.mp hobs
  obtain ⟨hhanded, hbuf⟩ := Prod.mk.inj hseen
  exact ⟨⟨t, ht, hhanded, hbuf⟩, served_iff_prompt msgs hunit true true true ht⟩

/-- **Two messages in one chunk**: the second one stays in the buffer, complete, while the worker
is back at its next `Recv`. -/
theorem second_message_stays :
    let msgs := [heartbeat 0, heartbeat 1]
    ∃ t, run step (started (msgs.map IMsg.ToString).flatten true true true)
        [.canLoop, .recv (.takes 84), .handle .answers, .canLoop] = some t ∧
      t.received = (msgs.map IMsg.ToString).flatten ∧ t.handed = [(heartbeat 0).ToString] ∧
      t.m_Buf = (heartbeat 1).ToString ∧ ¬ Served (msgs.map IMsg.ToString) t := by
  intro msgs
  have hobs : (run step (started (msgs.map IMsg.ToString).flatten true true true)
        [.canLoop, .recv (.takes 84), .handle .answers, .canLoop]).map
        (fun t => (t.received, t.handed, t.m_Buf)) =
      some ((msgs.map IMsg.ToString).flatten, [(heartbeat 0).ToString],
        (heartbeat 1).ToString) := by decide
  obtain ⟨t, ht, hseen⟩ := Option.map_eq_some_iff.mp hobs
  obtain ⟨hreceived, hrest⟩ := Prod.mk.inj hseen
  obtain ⟨hhanded, hbuf⟩ := Prod.mk.inj hrest
  refine ⟨t, ht, hreceived, hhanded, hbuf, ?_⟩
  rintro ⟨j, hj, -, hshort⟩
  have hlen : min j 2 = 1 := by
    have hcount := congrArg List.length hj
    rw [hhanded, List.length_take] at hcount
    exact hcount.symm
  obtain rfl : j = 1 := by omega
  have hlt := hshort (heartbeat 1).ToString rfl
  rw [hbuf] at hlt
  exact absurd hlt (Nat.lt_irrefl _)

/-! ## How the worker leaves its loop -/

/-- A worker that has left its loop was told to stop, or has called `OnDisconnect`. -/
def Reported (s : RtspSession) : Prop :=
  ¬ s.worker.InLoop → s.stopRequested = true ∨ 0 < s.disconnects

/-- The `int` kept of the end of the first message is not one that `substr` throws on. -/
def InRange (m_Buf : Bytes) : Prop :=
  ∀ n : Nat, findSub RTSP_MSG_END m_Buf = some n → i32 n = -1 ∨ -4 ≤ i32 n

/-- The step lets no exception out of the loop: the `select()` of `Recv` does not fail, the message
has its end where `substr` takes it, its handler returns. Or a stop was requested before. -/
def Contained (s : RtspSession) (a : Action) : Prop :=
  s.stopRequested = true ∨
    match a with
    | .recv env => s.worker = .recv → ¬ s.m_Socket.SelectFails env ∧ ∀ buf m_Socket,
        s.m_Socket.Recv env RTSP_MSG_MAX_SIZE = (.ok buf, m_Socket) → InRange (s.m_Buf ++ buf)
    | .handle env => ∀ msg, s.worker = .handle msg → s.Handles env (.parse env.garbage msg)
    | _ => True

/-- **The invariant**: in the loop nothing has been reported, and the status is that of a running
worker unless a stop was requested; out of it the session is reported. -/
structure Watched (s : RtspSession) : Prop where
  quiet : s.worker.InLoop → s.disconnects = 0
  running : s.worker.InLoop → s.m_status = .Status_Started ∨ s.stopRequested = true
  reported : Reported s

theorem extract_ok_of_inRange {m_Buf : Bytes} (h : InRange m_Buf) :
    ∃ cut, extract m_Buf = .ok cut := by
  unfold extract
  cases hfind : findSub RTSP_MSG_END m_Buf with
  | none => exact ⟨none, rfl⟩
  | some n =>
    have hint : intOfPos (some n) = i32 n := rfl
    have hrange := h n hfind
    rw [← hint] at hrange
    have hlen : RTSP_MSG_END.length = 4 := rfl
    rw [hlen]
    generalize intOfPos (some n) = endPos at hrange
    by_cases hnpos : endPos = -1
    · exact ⟨none, by simp only [if_pos hnpos]⟩
    · have hneg : ¬ endPos + (4 : Nat) < 0 := by omega
      refine ⟨some (m_Buf.take (endPos + (4 : Nat)).toNat, m_Buf.drop (endPos + (4 : Nat)).toNat), ?_⟩
      simp only [if_neg hnpos, if_neg hneg]

theorem extract_error_of_not_inRange {m_Buf : Bytes} (h : ¬ InRange m_Buf) :
    extract m_Buf = .error .other := by
  unfold InRange at h
  push Not at h
  obtain ⟨n, hn, hnpos, hneg⟩ := h
  have hint : intOfPos (some n) = i32 n := rfl
  rw [← hint] at hnpos hneg
  have hlen : RTSP_MSG_END.length = 4 := rfl
  unfold extract
  rw [hn, hlen]
  generalize intOfPos (some n) = endPos at hnpos hneg
  have hneg' : endPos + (4 : Nat) < 0 := by omega
  simp only [if_neg hnpos, if_pos hneg']

/-- Where a `Recv` of the loop takes the worker. -/
theorem recvStep_worker (s : RtspSession) (env : SocketEnv) :
    (s.recvStep env).m_status = s.m_status ∧ (s.recvStep env).stopRequested = s.stopRequested ∧
      (s.recvStep env).disconnects = s.disconnects ∧
      ((s.recvStep env).worker.InLoop ↔ ¬ s.m_Socket.SelectFails env ∧
        ∀ buf m_Socket, s.m_Socket.Recv env RTSP_MSG_MAX_SIZE = (.ok buf, m_Socket) →
          InRange (s.m_Buf ++ buf)) := by
  unfold recvStep
  rcases s.m_Socket.Recv_cases env RTSP_MSG_MAX_SIZE with
    ⟨e, m_Socket, hrecv, -, hsel⟩ | ⟨buf, m_Socket, hrecv, hsel, -, -, -⟩
  · rw [hrecv]
    by_cases he : e.isExceptionWithString = true
    · have hnsel : ¬ s.m_Socket.SelectFails env := fun h => by simp [hsel.mpr h] at he
      simp only [if_pos he]
      refine ⟨trivial, trivial, trivial, fun _ => ⟨hnsel, fun buf m h => by cases h⟩, fun _ => trivial⟩
    · have hysel : s.m_Socket.SelectFails env := hsel.mp (by simpa using he)
      simp only [if_neg he]
      exact ⟨trivial, trivial, trivial, False.elim, fun h => h.1 hysel⟩
  · rw [hrecv]
    simp only
    by_cases hrange : InRange (s.m_Buf ++ buf)
    · have hgood : ¬ s.m_Socket.SelectFails env ∧ ∀ buf' m_Socket',
          ((.ok buf, m_Socket) : Except Exn Bytes × Socket) = (.ok buf', m_Socket') →
            InRange (s.m_Buf ++ buf') := by
        refine ⟨hsel, ?_⟩
        intro buf' m_Socket' h
        cases h
        exact hrange
      obtain ⟨cut, hcut⟩ := extract_ok_of_inRange hrange
      rw [hcut]
      cases cut with
      | none => exact ⟨rfl, rfl, rfl, fun _ => hgood, fun _ => trivial⟩
      | some cut => exact ⟨rfl, rfl, rfl, fun _ => hgood, fun _ => trivial⟩
    · rw [extract_error_of_not_inRange hrange]
      exact ⟨rfl, rfl, rfl, False.elim, fun h => hrange (h.2 buf m_Socket rfl)⟩

/-- A step that leaves the worker where it is, or moves it within the loop. -/
theorem Watched.stays (h : Watched s) (hloop : t.worker.InLoop → s.worker.InLoop)
    (hout : ¬ t.worker.InLoop → ¬ s.worker.InLoop ∨ s.stopRequested = true)
    (hstatus : t.worker.InLoop → t.m_status = s.m_status)
    (hstop : t.stopRequested = s.stopRequested) (hdisc : t.disconnects = s.disconnects) :
    Watched t where
  quiet hin := by rw [hdisc]; exact h.quiet (hloop hin)
  running hin := by rw [hstatus hin, hstop]; exact h.running (hloop hin)
  reported hnot := by
    rw [hstop, hdisc]
    rcases hout hnot with hnot' | hreq
    · exact h.reported hnot'
    · exact Or.inl hreq

theorem step_watched {a : Action} (h : Watched s) (hc : s.Contained a)
    (hs : step s a = some t) : Watched t := by
  unfold step at hs
  by_cases hterm : s.terminated = true
  · simp [hterm] at hs
  rw [if_neg hterm] at hs
  cases a with
  | canLoop =>
    cases hpc : s.worker with
    | canLoop =>
      have hin : s.worker.InLoop := hpc ▸ trivial
      simp only [hpc] at hs
      cases hgo : AsyncBase.CanLoopContinue s.m_status with
      | none => simp [hgo] at hs
      | some go =>
        cases go with
        | true =>
          simp only [hgo, Option.some.injEq] at hs
          subst hs
          exact h.stays (fun _ => hin) (fun hnot => absurd trivial hnot) (fun _ => rfl) rfl rfl
        | false =>
          simp only [hgo, Option.some.injEq] at hs
          have hreq : s.stopRequested = true := by
            rcases h.running hin with hrun | hreq
            · rw [hrun] at hgo
              cases hgo
            · exact hreq
          subst hs
          exact h.stays False.elim (fun _ => Or.inr hreq) False.elim rfl rfl
    | _ => simp [hpc] at hs
  | recv env =>
    cases hpc : s.worker with
    | recv =>
      have hin : s.worker.InLoop := hpc ▸ trivial
      simp only [hpc, Option.some.injEq] at hs
      obtain ⟨hstatus, hstop, hdisc, hworker⟩ := s.recvStep_worker env
      subst hs
      refine h.stays (fun _ => hin) (fun hnot => Or.inr ?_) (fun _ => hstatus) hstop hdisc
      rcases hc with hreq | hgood
      · exact hreq
      · exact absurd (hworker.mpr (hgood hpc)) hnot
    | _ => simp [hpc] at hs
  | handle env =>
    cases hpc : s.worker with
    | handle msg =>
      have hin : s.worker.InLoop := hpc ▸ trivial
      have hframe := s.HandleMessage_frame env (.parse env.garbage msg)
      have hok := s.HandleMessage_ok_iff env (.parse env.garbage msg)
      simp only [hpc] at hs
      cases hres : s.HandleMessage env (.parse env.garbage msg) with
      | mk r s' =>
        rw [hres] at hframe hok
        cases r with
        | ok _ =>
          simp only [hres, Option.some.injEq] at hs
          subst hs
          exact h.stays (fun _ => hin) (fun hnot => absurd trivial hnot) (fun _ => hframe.status)
            hframe.stopRequested hframe.disconnects
        | error e =>
          simp only [hres, Option.some.injEq] at hs
          subst hs
          refine h.stays False.elim (fun _ => Or.inr ?_) False.elim hframe.stopRequested
            hframe.disconnects
          rcases hc with hreq | hgood
          · exact hreq
          · cases hok.mpr (hgood msg hpc)
    | _ => simp [hpc] at hs
  | disconnect callback =>
    cases hpc : s.worker with
    | disconnect =>
      simp only [hpc, Option.some.injEq] at hs
      subst hs
      exact ⟨False.elim, False.elim, fun _ => Or.inr (Nat.zero_lt_succ _)⟩
    | _ => simp [hpc] at hs
  | exit =>
    cases hpc : s.worker with
    | leaving result =>
      have hnot : ¬ s.worker.InLoop := by
        rw [hpc]
        exact id
      simp only [hpc] at hs
      cases hexit : AsyncBase.threadExit s.m_status result with
      | none =>
        simp only [hexit, Option.some.injEq] at hs
        subst hs
        exact h.stays False.elim (fun _ => Or.inl hnot) False.elim rfl rfl
      | some m_status =>
        simp only [hexit, Option.some.injEq] at hs
        subst hs
        exact h.stays False.elim (fun _ => Or.inl hnot) False.elim rfl rfl
    | _ => simp [hpc] at hs
  | StopAsyncBase =>
    simp only [Option.some.injEq] at hs
    subst hs
    exact ⟨h.quiet, fun _ => Or.inr rfl, fun _ => Or.inl rfl⟩
  | Shutdown =>
    simp only at hs
    split at hs
    all_goals
      cases hs
      exact h.stays id Or.inl (fun _ => rfl) rfl rfl
  | Send env msg =>
    simp only [Option.some.injEq] at hs
    have hframe := s.Send_frame env msg
    rw [hs] at hframe
    refine h.stays (fun hin => ?_) (fun hnot => Or.inl ?_) (fun _ => hframe.status)
      hframe.stopRequested hframe.disconnects
    · rw [← hframe.worker]
      exact hin
    · rw [← hframe.worker]
      exact hnot
  | checkAlive =>
    simp only [Option.some.injEq] at hs
    subst hs
    exact h.stays id Or.inl (fun _ => rfl) rfl rfl

/-- An exception let out of the loop before any stop leaves the session unreported. -/
theorem step_not_reported {a : Action} (h : Watched s) (hc : ¬ s.Contained a)
    (hs : step s a = some t) : ¬ Reported t := by
  unfold step at hs
  by_cases hterm : s.terminated = true
  · simp [hterm] at hs
  rw [if_neg hterm] at hs
  simp only [Contained, not_or] at hc
  obtain ⟨hreq, hbad⟩ := hc
  cases a with
  | recv env =>
    simp only [Classical.not_imp] at hbad
    obtain ⟨hpc, hgood⟩ := hbad
    have hin : s.worker.InLoop := hpc ▸ trivial
    obtain ⟨-, hstop, hdisc, hworker⟩ := s.recvStep_worker env
    simp only [hpc, Option.some.injEq] at hs
    subst hs
    intro hrep
    rcases hrep (fun hin' => hgood (hworker.mp hin')) with hreq' | hpos
    · exact hreq (hstop ▸ hreq')
    · rw [hdisc, h.quiet hin] at hpos
      exact Nat.lt_irrefl 0 hpos
  | handle env =>
    simp only [not_forall] at hbad
    obtain ⟨msg, hpc, hfails⟩ := hbad
    have hin : s.worker.InLoop := hpc ▸ trivial
    have hframe := s.HandleMessage_frame env (.parse env.garbage msg)
    have hok := s.HandleMessage_ok_iff env (.parse env.garbage msg)
    simp only [hpc] at hs
    cases hres : s.HandleMessage env (.parse env.garbage msg) with
    | mk r s' =>
      rw [hres] at hframe hok
      cases r with
      | ok _ => exact absurd (hok.mp rfl) hfails
      | error e =>
        simp only [hres, Option.some.injEq] at hs
        subst hs
        intro hrep
        rcases hrep id with hreq' | hpos
        · exact hreq (hframe.stopRequested ▸ hreq')
        · rw [show _ = s.disconnects from hframe.disconnects, h.quiet hin] at hpos
          exact Nat.lt_irrefl 0 hpos
  | _ => exact absurd trivial hbad

/-- **A worker out of its loop is reported at every point of a run iff every step of the run keeps
its exceptions in the loop, or comes after a stop**, for every byte stream, every chunking and
every outcome of the handlers. -/
theorem reported_iff_contained (incoming : Bytes) (onRequest onResponse onDisconnected : Bool)
    {as : List Action}
    (hrun : run step (started incoming onRequest onResponse onDisconnected) as = some t) :
    Meets step Contained (started incoming onRequest onResponse onDisconnected) as ↔
      Along step Reported (started incoming onRequest onResponse onDisconnected) as := by
  have hstart : Watched (started incoming onRequest onResponse onDisconnected) :=
    ⟨fun _ => rfl, fun _ => Or.inl rfl, fun hnot => absurd trivial hnot⟩
  exact meets_iff_along (p := fun _ => True) (fun _ h => h.reported)
    (fun _ _ _ h _ hc hs => step_watched h hc hs)
    (fun _ _ _ h _ hc hs => step_not_reported h hc hs) hstart (fun _ _ => trivial) hrun

/-- A heartbeat, then the other side closes. -/
theorem reported_iff_contained_closed :
    let s₀ := started (heartbeat 0).ToString true true true
    let as : List Action := [.canLoop, .recv (.takes 42), .handle .answers, .canLoop,
      .recv (.takes 0), .disconnect (.ok ()), .exit]
    (∃ t, run step s₀ as = some t ∧ ¬ t.worker.InLoop ∧ t.disconnects = 1) ∧
      (Meets step Contained s₀ as ↔ Along step Reported s₀ as) := by
  intro s₀ as
  have hobs : (run step s₀ as).map (fun t => (decide (t.worker.InLoop), t.disconnects)) =
      some (false, 1) := by decide
  obtain ⟨t, ht, hseen⟩ := Option.map_eq_some_iff.mp hobs
  obtain ⟨hout, hdisc⟩ := Prod.mk.inj hseen
  exact ⟨⟨t, ht, of_decide_eq_false hout, hdisc⟩,
    reported_iff_contained (heartbeat 0).ToString true true true ht⟩

/-- **A message of no known type ends the worker**: nobody asked for a stop, nobody is told. -/
theorem unknown_type_unreported :
    ∃ t, run step (started RTSP_MSG_END true true true)
        [.canLoop, .recv (.takes 4), .handle .answers, .exit] = some t ∧
      ¬ t.worker.InLoop ∧ t.stopRequested = false ∧ t.disconnects = 0 ∧ ¬ Reported t := by
  have hobs : (run step (started RTSP_MSG_END true true true)
        [.canLoop, .recv (.takes 4), .handle .answers, .exit]).map
        (fun t => (decide (t.worker.InLoop), t.stopRequested, t.disconnects)) =
      some (false, false, 0) := by decide
  obtain ⟨t, ht, hseen⟩ := Option.map_eq_some_iff.mp hobs
  obtain ⟨hout, hrest⟩ := Prod.mk.inj hseen
  obtain ⟨hstop, hdisc⟩ := Prod.mk.inj hrest
  refine ⟨t, ht, of_decide_eq_false hout, hstop, hdisc, ?_⟩
  intro hrep
  rcases hrep (of_decide_eq_false hout) with hreq | hpos
  · exact absurd hreq (by simp [hstop])
  · exact absurd hpos (by simp [hdisc])

end RtspSession

end TiraRdp
