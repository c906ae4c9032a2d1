import TiraRdp.Lib.Word
import TiraRdp.Utility.Exception

/-!
# `Socket::Send` and `Socket::Recv`

Model of the two ends of `Socket` (`common/utility/private/common/Socket.cpp`) over a non-blocking
kernel socket. What the operating system and other threads do during a call is the call's
`SocketEnv`: how the wait for the socket to become ready ends, and what `send()` or `recv()`
answers. Two ghost fields stand for the connection: `sent` is what the kernel has taken, in order,
`incoming` what the other side has sent and nobody has received.

`Accepts request n` is the contract of `send()`: at least one byte of a non-empty request, at most
all of it, and no success on a negative length. `recv()` hands over what there is, up to the size
of the buffer; nothing means that the other side has closed.
-/

namespace TiraRdp

open Lib

/-- How `WaitFor…Ready` is left, apart from a cancel that is pending when it is entered. -/
inductive ReadyWait where
  | ready
  | cancelled
  | selectError (error : Int)
  deriving Repr, DecidableEq

/-- What `send()` or `recv()` returns. -/
inductive SocketReturn where
  | count (n : Nat)
  | socketError (error : Int)
  deriving Repr, DecidableEq

/-- What one call of `Send` or `Recv` meets. -/
structure SocketEnv where
  wait : ReadyWait
  answer : SocketReturn
  deriving Repr, DecidableEq

/-- A call that finds the socket ready and has `n` bytes taken. -/
def SocketEnv.takes (n : Nat) : SocketEnv := ⟨.ready, .count n⟩

structure Socket where
  m_IsAlive : Bool
  m_IsError : Bool
  m_IsCancelRead : Bool
  m_IsCancelWrite : Bool
  sent : Bytes
  incoming : Bytes
  deriving Repr, DecidableEq

namespace Socket

/-- A connected socket on which nothing has been sent either way. -/
def connected : Socket := ⟨true, false, false, false, [], []⟩

/-- A connected socket at whose other end these bytes have been, or will be, sent. -/
def receiving (incoming : Bytes) : Socket := { connected with incoming }

/-- `WaitForWriteReady` (`Socket.cpp:245-260`); `m_IsCancelWrite` is reset on every way out. -/
def WaitForWriteReady (s : Socket) (wait : ReadyWait) : Except Exn Unit × Socket :=
  let s' := { s with m_IsCancelWrite := false }
  if s.m_IsCancelWrite then (.error (.exceptionWithString "Writing is canceled!"), s')
  else
    match wait with
    | .ready => (.ok (), s')
    | .cancelled => (.error (.exceptionWithString "Writing is canceled!"), s')
    | .selectError error => (.error (.runtimeError (toString error)), s')

/-- `WaitForReadReady` (`Socket.cpp:262-277`); `m_IsCancelRead` is reset on every way out. -/
def WaitForReadReady (s : Socket) (wait : ReadyWait) : Except Exn Unit × Socket :=
  let s' := { s with m_IsCancelRead := false }
  if s.m_IsCancelRead then (.error (.exceptionWithString "Socket: Reading is canceled!"), s')
  else
    match wait with
    | .ready => (.ok (), s')
    | .cancelled => (.error (.exceptionWithString "Socket: Reading is canceled!"), s')
    | .selectError error => (.error (.runtimeError (toString error)), s')

/-- `CheckSocketReturn` (`Socket.cpp:228-243`). -/
def CheckSocketReturn (s : Socket) (result : SocketReturn) : Except Exn Nat × Socket :=
  match result with
  | .count n => (.ok n, s)
  | .socketError error =>
    (.error (.exceptionWithString ("Socket encounter error: " ++ toString error ++ "\n")),
      { s with m_IsError := true })

/-- What the kernel takes of `buffer` when `send()` answers so. -/
def taken (buffer : Bytes) : SocketReturn → Bytes
  | .count n => buffer.take n
  | .socketError _ => []

/-- `Send` (`Socket.cpp:407-414`). It returns the count that `send()` answered. -/
def Send (s : Socket) (env : SocketEnv) (buffer : Bytes) : Except Exn Nat × Socket :=
  if s.m_IsAlive then
    match s.WaitForWriteReady env.wait with
    | (.error e, s') => (.error e, s')
    | (.ok _, s') =>
      CheckSocketReturn { s' with sent := s'.sent ++ taken buffer env.answer } env.answer
  else (.error (.exceptionWithString "Call on a dead socket!"), s)

/-- `Recv` (`Socket.cpp:376-385`): the bytes put into a buffer of `bufLen` bytes. -/
def Recv (s : Socket) (env : SocketEnv) (bufLen : Nat) : Except Exn Bytes × Socket :=
  if s.m_IsAlive then
    match s.WaitForReadReady env.wait with
    | (.error e, s') => (.error e, s')
    | (.ok _, s') =>
      match env.answer with
      | .socketError error =>
        let checked := s'.CheckSocketReturn (.socketError error)
        (checked.1.map fun _ => [], checked.2)
      | .count n =>
        if s'.incoming.take (min n bufLen) = [] then
          (.error (.exceptionWithString "Socket has been closed gracefully!"), s')
        else
          (.ok (s'.incoming.take (min n bufLen)),
            { s' with incoming := s'.incoming.drop (min n bufLen) })
  else (.error (.exceptionWithString "Call on a dead socket!"), s)

/-- The counts `send()` may return for a request of that many bytes. -/
def Accepts (request : Int) (n : Nat) : Prop :=
  (0 < request ∧ 0 < n ∧ (n : Int) ≤ request) ∨ (request = 0 ∧ n = 0)

instance (request : Int) (n : Nat) : Decidable (Accepts request n) :=
  inferInstanceAs (Decidable ((0 < request ∧ 0 < n ∧ (n : Int) ≤ request) ∨ (request = 0 ∧ n = 0)))

/-- The call took all it was given. -/
def TakesAll (request : Int) (n : Nat) : Prop := (n : Int) = request

instance (request : Int) (n : Nat) : Decidable (TakesAll request n) :=
  inferInstanceAs (Decidable ((n : Int) = request))

/-- On a live socket with no cancel pending, `n` bytes taken is `n` bytes more on the wire. -/
theorem Send_takes {s : Socket} (ha : s.m_IsAlive = true) (hc : s.m_IsCancelWrite = false)
    (n : Nat) (buffer : Bytes) :
    s.Send (.takes n) buffer = (.ok n, { s with sent := s.sent ++ buffer.take n }) := by
  obtain ⟨a, e, cr, c, b, i⟩ := s
  subst ha hc
  rfl

/-- On a live socket with no cancel pending, what can be taken is taken off the wire. -/
theorem Recv_takes {s : Socket} (ha : s.m_IsAlive = true) (hc : s.m_IsCancelRead = false)
    {n bufLen : Nat} (hne : s.incoming.take (min n bufLen) ≠ []) :
    s.Recv (.takes n) bufLen = (.ok (s.incoming.take (min n bufLen)),
      { s with incoming := s.incoming.drop (min n bufLen) }) := by
  obtain ⟨a, e, cr, c, b, i⟩ := s
  subst ha hc
  exact if_neg hne

/-- Nothing to take is taken for the end of the connection. -/
theorem Recv_closed {s : Socket} (ha : s.m_IsAlive = true) (hc : s.m_IsCancelRead = false)
    {n bufLen : Nat} (hnil : s.incoming.take (min n bufLen) = []) :
    s.Recv (.takes n) bufLen =
      (.error (.exceptionWithString "Socket has been closed gracefully!"), s) := by
  obtain ⟨a, e, cr, c, b, i⟩ := s
  subst ha hc
  exact if_pos hnil

/-- Sending does not touch what is coming in. -/
theorem Send_incoming (s : Socket) (env : SocketEnv) (buffer : Bytes) :
    (s.Send env buffer).2.incoming = s.incoming := by
  by_cases ha : s.m_IsAlive = true
  · by_cases hc : s.m_IsCancelWrite = true
    · simp [Send, WaitForWriteReady, ha, hc]
    · cases hw : env.wait <;> cases hans : env.answer <;>
        simp [Send, WaitForWriteReady, CheckSocketReturn, ha, hc, hw, hans]
  · simp [Send, ha]

/-- A call of `Send` that gets through: live, no cancel, the socket ready, `send()` answering. -/
def Sends (s : Socket) (env : SocketEnv) : Prop :=
  s.m_IsAlive = true ∧ s.m_IsCancelWrite = false ∧ env.wait = .ready ∧ ∃ n, env.answer = .count n

theorem Send_ok_iff (s : Socket) (env : SocketEnv) (buffer : Bytes) :
    (∃ n, (s.Send env buffer).1 = .ok n) ↔ s.Sends env := by
  by_cases ha : s.m_IsAlive = true
  · by_cases hc : s.m_IsCancelWrite = true
    · simp [Send, WaitForWriteReady, ha, hc, Sends]
    · cases hw : env.wait <;> cases hans : env.answer <;>
        simp [Send, WaitForWriteReady, CheckSocketReturn, ha, hc, hw, hans, Sends]
  · simp [Send, ha, Sends]

/-- The `ENSURE` on `select()` in the wait fails: the one way out of a call that is not an
`ExceptionWithString`. -/
def SelectFails (s : Socket) (env : SocketEnv) : Prop :=
  s.m_IsAlive = true ∧ s.m_IsCancelRead = false ∧ ∃ error, env.wait = .selectError error

/-- **What a call of `Recv` can do**: throw and take nothing, or take some bytes, at most
`bufLen`, from the front of what is coming in. -/
theorem Recv_cases (s : Socket) (env : SocketEnv) (bufLen : Nat) :
    (∃ e s', s.Recv env bufLen = (.error e, s') ∧ s'.incoming = s.incoming ∧
      (e.isExceptionWithString = false ↔ s.SelectFails env)) ∨
    ∃ bytes s', s.Recv env bufLen = (.ok bytes, s') ∧ ¬ s.SelectFails env ∧
      s.incoming = bytes ++ s'.incoming ∧ bytes ≠ [] ∧ bytes.length ≤ bufLen := by
  let s₁ : Socket := { s with m_IsCancelRead := false }
  by_cases ha : s.m_IsAlive = true
  · by_cases hc : s.m_IsCancelRead = true
    · have h : s.Recv env bufLen =
          (.error (.exceptionWithString "Socket: Reading is canceled!"), s₁) := by
        simp only [Recv, WaitForReadReady, if_pos ha, if_pos hc, s₁]
      exact Or.inl ⟨_, _, h, rfl, by simp [Exn.isExceptionWithString, SelectFails, hc]⟩
    · cases hw : env.wait with
      | cancelled =>
        have h : s.Recv env bufLen =
            (.error (.exceptionWithString "Socket: Reading is canceled!"), s₁) := by
          simp only [Recv, WaitForReadReady, if_pos ha, if_neg hc, hw, s₁]
        exact Or.inl ⟨_, _, h, rfl, by simp [Exn.isExceptionWithString, SelectFails, hw]⟩
      | selectError error =>
        have h : s.Recv env bufLen = (.error (.runtimeError (toString error)), s₁) := by
          simp only [Recv, WaitForReadReady, if_pos ha, if_neg hc, hw, s₁]
        exact Or.inl ⟨_, _, h, rfl, by simp [Exn.isExceptionWithString, SelectFails, hw, ha, hc]⟩
      | ready =>
        have hsel : ¬ s.SelectFails env := fun ⟨_, _, error, h⟩ => by rw [hw] at h; cases h
        cases hans : env.answer with
        | socketError error =>
          have h : s.Recv env bufLen =
              (.error (.exceptionWithString
                ("Socket encounter error: " ++ toString error ++ "\n")),
                { s₁ with m_IsError := true }) := by
            simp only [Recv, WaitForReadReady, if_pos ha, if_neg hc, hw, hans, CheckSocketReturn,
              Except.map, s₁]
          exact Or.inl ⟨_, _, h, rfl, by simp [Exn.isExceptionWithString, hsel]⟩
        | count n =>
          by_cases hnil : s.incoming.take (min n bufLen) = []
          · have h : s.Recv env bufLen =
                (.error (.exceptionWithString "Socket has been closed gracefully!"), s₁) := by
              simp only [Recv, WaitForReadReady, if_pos ha, if_neg hc, hw, hans, if_pos hnil, s₁]
            exact Or.inl ⟨_, _, h, rfl, by simp [Exn.isExceptionWithString, hsel]⟩
          · have h : s.Recv env bufLen = (.ok (s.incoming.take (min n bufLen)),
                { s₁ with incoming := s.incoming.drop (min n bufLen) }) := by
              simp only [Recv, WaitForReadReady, if_pos ha, if_neg hc, hw, hans, if_neg hnil, s₁]
            refine Or.inr ⟨_, _, h, hsel, (List.take_append_drop _ _).symm, hnil, ?_⟩
            rw [List.length_take]
            omega
  · have h : s.Recv env bufLen = (.error (.exceptionWithString "Call on a dead socket!"), s) := by
      simp only [Recv, if_neg ha]
    exact Or.inl ⟨_, _, h, rfl, by simp [Exn.isExceptionWithString, SelectFails, ha]⟩

end Socket

end TiraRdp
