import CoreShift.Core.Types

/-!
# Descriptors, errors and processes

The parts of `low_level/reactor` and `low_level/spawn` that the executor holds on to. What
the kernel answers is data: a system call that is retried on `EINTR` reads a list of answers
from the front.
-/

namespace CoreShift

/-- A descriptor number, `RawFd`. -/
abbrev RawFd := Int32

/-- A token of the reactor. -/
structure Token where
  val : UInt64
deriving DecidableEq, Repr

/-- A ready descriptor, as `Reactor::wait` reports it. -/
structure ReactorEvent where
  token : Token
  readable : Bool
  writable : Bool
  error : Bool
deriving DecidableEq, Repr

/-! ## Errors -/

def ESRCH : Int32 := 3
def EINTR : Int32 := 4
def ECHILD : Int32 := 10
def EAGAIN : Int32 := 11

structure SysError where
  code : Int32
  op : String
deriving DecidableEq, Repr

/-- The `Display` instance. -/
def SysError.toText (e : SysError) : String :=
  e.op ++ " failed (code=" ++ toString e.code.toInt ++ ")"

/-- `syscall_ret`, given the `errno` of a call that failed. -/
def syscallRet (errno : Option Int32) (op : String) : Except SysError Unit :=
  match errno with
  | some code => .error ⟨code, op⟩
  | none => .ok ()

/-- `Fd::set_nonblock`, given the `errno` of either call to `fcntl` that fails. -/
def setNonblock (getfl setfl : Option Int32) : Except SysError Unit :=
  match syscallRet getfl "fcntl(F_GETFL)" with
  | .error e => .error e
  | .ok () => syscallRet setfl "fcntl(F_SETFL)"

/-- `Reactor::wait`: an interrupted wait reports no events. -/
def Reactor.wait {α : Type} : Except Int32 (List α) → Except SysError (List α)
  | .ok events => .ok events
  | .error code => if code = EINTR then .ok [] else .error ⟨code, "epoll_wait"⟩

/-! ## Processes -/

def SIGKILL : Int32 := 9
def SIGPIPE : Int32 := 13
def SIGTERM : Int32 := 15

inductive ExitStatus
  | exited (code : Int32)
  | signaled (signal : Int32)
deriving DecidableEq, Repr

/-- `decode_status`, with the bit layout of the `WIF*` macros of Linux. -/
def decodeStatus (status : Int32) : ExitStatus :=
  if status &&& 0x7f = 0 then .exited ((status >>> 8) &&& 0xff)
  else if status &&& 0x7f ≠ 0x7f then .signaled (status &&& 0x7f)
  else .exited (-1)

/-- An answer of `waitpid` with `WNOHANG`. -/
inductive WaitAnswer
  | running
  | reaped (status : Int32)
  | fail (code : Int32)
deriving DecidableEq, Repr

structure Process where
  pid : Int32
deriving DecidableEq, Repr

/-- `Process::wait_step`. A child that was reaped before counts as exited with code 0. The
list holds the answers to the successive tries; when it runs out, the child is running. -/
def Process.waitStep (p : Process) : List WaitAnswer → Except SysError (Option ExitStatus)
  | [] => .ok none
  | .running :: _ => .ok none
  | .reaped status :: _ => .ok (some (decodeStatus status))
  | .fail code :: answers =>
    if code = EINTR then p.waitStep answers
    else if code = ECHILD then .ok (some (.exited 0))
    else .error ⟨code, "waitpid_step"⟩

/-- Whether one of the tries of a `wait_step` took the child's status away. -/
def reapsChild : List WaitAnswer → Bool
  | [] => false
  | .running :: _ => false
  | .reaped _ :: _ => true
  | .fail code :: answers => if code = EINTR then reapsChild answers else false

/-- `Process::wait_blocking`. A try is answered with the raw status or an `errno`; when the
list runs out, the call has not returned. -/
def Process.waitBlocking (p : Process) :
    List (Except Int32 Int32) → Option (Except SysError ExitStatus)
  | [] => none
  | .ok status :: _ => some (.ok (decodeStatus status))
  | .error code :: answers =>
    if code = EINTR then p.waitBlocking answers
    else if code = ECHILD then some (.ok (.exited 0))
    else some (.error ⟨code, "waitpid_blocking"⟩)

/-- What `Process::kill` and `Process::kill_pgroup` make of the `errno` of the call: a process
that is not there counts as killed. -/
def killRet (errno : Option Int32) (op : String) : Except SysError Unit :=
  if errno = some ESRCH then .ok () else syscallRet errno op

/-- The pid that is passed to `kill`: a group is numbered by its leader. -/
def Process.target (p : Process) (isGroup : Bool) : Int32 := if isGroup then -p.pid else p.pid

end CoreShift
