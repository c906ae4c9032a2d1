import TiraRdp.Utility.Exception

/-!
# `AsyncBase`: the worker thread's status

Model of `common/utility/private/common/AsyncBase.cpp`. Each operation is what it does to
`m_status`, under `m_operationMutex` where the code takes it; the wait in `CanLoopContinue` is the
answer `none`. `threadExit` is the end of the thread's function (`:85-99`): its handler names
`ExceptionWithString` only, so anything else that `Workloop` lets out ends the process.
-/

namespace TiraRdp

inductive Ti_Worker_Status where
  | Status_Stopped
  | Status_Started
  | Status_Paused
  | Status_Error
  deriving Repr, DecidableEq

namespace AsyncBase

def IsAsyncBaseInError (m_status : Ti_Worker_Status) : Bool := m_status == .Status_Error

def IsAsyncBaseRunning (m_status : Ti_Worker_Status) : Bool :=
  m_status != .Status_Error && m_status != .Status_Stopped

/-- `none` while the thread stays in the wait of a paused worker. -/
def CanLoopContinue : Ti_Worker_Status → Option Bool
  | .Status_Paused => none
  | m_status => some (m_status == .Status_Started)

def ResumeAsyncBase : Ti_Worker_Status → Ti_Worker_Status
  | .Status_Paused => .Status_Started
  | m_status => m_status

def PauseAsyncBase : Ti_Worker_Status → Ti_Worker_Status
  | .Status_Started => .Status_Paused
  | m_status => m_status

/-- The new status, and whether `UnBlockWorkingThread` is called. -/
def StopAsyncBase (m_status : Ti_Worker_Status) : Ti_Worker_Status × Bool :=
  (.Status_Stopped, m_status != .Status_Stopped)

/-- The new status, and whether a thread is started. -/
def StartAsyncBase : Ti_Worker_Status → Ti_Worker_Status × Bool
  | .Status_Stopped => (.Status_Started, true)
  | .Status_Paused => (.Status_Started, false)
  | m_status => (m_status, false)

/-- The status the thread leaves behind; `none` when the exception is not caught. -/
def threadExit (m_status : Ti_Worker_Status) : Except Exn Unit → Option Ti_Worker_Status
  | .ok _ => some m_status
  | .error e => if e.isExceptionWithString then some .Status_Error else none

end AsyncBase

end TiraRdp
