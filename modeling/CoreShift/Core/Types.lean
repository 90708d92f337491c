import CoreShift.Utils.HashMap

/-!
# The action protocol and the execution state

The data of `core/mod.rs`: what modules exchange (`Action`), what the outside reports
(`Event`), what the executor is asked to do (`Effect`), and the state the modules share.

Job ids and handles are 64-bit words, as in the source. An `Instant` counts nanoseconds.
-/

namespace CoreShift

open Utils

/-- The id of a job, a `u64`. -/
abbrev JobId := UInt64

/-- A reading of the monotonic clock, in nanoseconds. -/
abbrev Instant := ℕ

/-- A byte string, `Vec<u8>`. -/
abbrev Bytes := List UInt8

/-- `Duration::from_millis`, in the clock's unit. -/
def durationFromMillis (ms : ℕ) : ℕ := ms * 1000000

inductive CancelPolicy
  | none
  | graceful
  | kill
deriving DecidableEq, Repr

structure ProcessHandle where
  val : UInt64
deriving DecidableEq, Repr

structure IoHandle where
  val : UInt64
deriving DecidableEq, Repr

structure ExecSpec where
  argv : List String
  stdin : Option Bytes
  captureStdout : Bool
  captureStderr : Bool
  maxOutput : ℕ
deriving DecidableEq, Repr

structure ExecPolicy where
  timeoutMs : Option UInt32
  killGraceMs : UInt32
  cancel : CancelPolicy
deriving DecidableEq, Repr

structure ExecResult where
  status : Option Int32
  stdout : Bytes
  stderr : Bytes
  timedOut : Bool
deriving DecidableEq, Repr

inductive ExecError
  | spawnFailed
  | runtimeError
  | internal (msg : String)
deriving DecidableEq, Repr

structure ExecOutcome where
  id : JobId
  result : Except ExecError ExecResult
deriving DecidableEq, Repr

inductive LogLevel
  | info
  | warn
  | error
deriving DecidableEq, Repr

inductive LogEvent
  | submit (id : JobId)
  | spawn (id : JobId) (pid : Int32)
  | cancel (id : JobId)
  | forceKill (id : JobId)
  | exit (id : JobId) (status : Option Int32)
  | timeout (id : JobId)
  | error (id : JobId) (err : String)
deriving DecidableEq, Repr

inductive ControlSignal
  | gracefulStop
  | forceKill
deriving DecidableEq, Repr

inductive IoStream
  | stdout
  | stderr
  | stdin
deriving DecidableEq, Repr

/-- External signals. -/
inductive Event
  | processStarted (id : JobId) (process : ProcessHandle) (io : IoHandle)
  | processSpawnFailed (id : JobId) (err : String)
  | processExited (id : JobId) (status : Option Int32)
  | jobFdReady (jobId : JobId) (readable writable error : Bool)
deriving DecidableEq, Repr

/-- Intents. The comments group the constructors as the source does. -/
inductive Action
  | submit (id : JobId) (owner : UInt32) (exec : ExecSpec) (policy : ExecPolicy)
  -- state transitions
  | admitted (id : JobId) (owner : UInt32) (exec : ExecSpec) (policy : ExecPolicy)
  | rejected (id : JobId)
  | started (id : JobId)
  | controlled (id : JobId)
  | finished (id : JobId) (result : Except ExecError ExecResult)
  | queryResult (id : JobId) (result : Option ExecOutcome)
  -- semantic intents
  | startProcess (id : JobId) (exec : ExecSpec) (policy : ExecPolicy)
  | signalProcess (id : JobId) (signal : ControlSignal)
  | pollProcess (id : JobId)
  | performIo (id : JobId)
  | registerInterest (id : JobId) (stream : IoStream)
  | removeInterest (id : JobId) (stream : IoStream)
  | emitLog (level : LogLevel) (event : LogEvent)
  -- input actions
  | control (id : JobId) (signal : ControlSignal)
  | query (id : JobId)
  | timeoutReached (id : JobId)
  | killDeadlineReached (id : JobId)
deriving DecidableEq, Repr

/-- Resolved side effects. -/
inductive Effect
  | log (level : LogLevel) (event : LogEvent)
  | watchStream (id : JobId) (io : IoHandle) (stream : IoStream)
  | unwatchStream (id : JobId) (io : IoHandle) (stream : IoStream)
  | startProcess (id : JobId) (exec : ExecSpec) (policy : ExecPolicy)
  | killProcess (id : JobId) (signal : ControlSignal) (process : ProcessHandle) (isGroup : Bool)
  | pollProcess (id : JobId) (process : ProcessHandle)
  | performIo (id : JobId) (io : IoHandle)
deriving DecidableEq, Repr

inductive JobLifecycle
  | submitted
  | admitted
  | running
  | terminating
  | killed
  | finished
deriving DecidableEq, Repr

structure JobState where
  id : JobId
  owner : UInt32
  process : Option ProcessHandle
  io : Option IoHandle
  timedOut : Bool
  pgroup : Option Int32
  isolated : Bool
deriving DecidableEq, Repr

structure StoredResult where
  result : Except ExecError ExecResult
  owner : UInt32
  created : Instant
deriving DecidableEq, Repr

structure ExecutionState where
  jobs : HashMap JobId JobState
  lifecycle : HashMap JobId JobLifecycle
  results : HashMap JobId StoredResult

/-- `ExecutionState::new`. -/
def ExecutionState.new : ExecutionState := ⟨.empty, .empty, .empty⟩

/-! ## The job an action, an event or an effect is about -/

def LogEvent.jobId : LogEvent → JobId
  | .submit id | .spawn id _ | .cancel id | .forceKill id | .exit id _ | .timeout id
  | .error id _ => id

def Action.jobId : Action → JobId
  | .submit id _ _ _ | .admitted id _ _ _ | .rejected id | .started id | .controlled id
  | .finished id _ | .queryResult id _ | .startProcess id _ _ | .signalProcess id _
  | .pollProcess id | .performIo id | .registerInterest id _ | .removeInterest id _
  | .control id _ | .query id | .timeoutReached id | .killDeadlineReached id => id
  | .emitLog _ event => event.jobId

def Event.jobId : Event → JobId
  | .processStarted id _ _ | .processSpawnFailed id _ | .processExited id _
  | .jobFdReady id _ _ _ => id

def Effect.jobId : Effect → JobId
  | .log _ event => event.jobId
  | .watchStream id _ _ | .unwatchStream id _ _ | .startProcess id _ _ | .killProcess id _ _ _
  | .pollProcess id _ | .performIo id _ => id

end CoreShift
