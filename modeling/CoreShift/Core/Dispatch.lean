import CoreShift.Core.Policy
import CoreShift.Core.Modules

/-!
# Dispatcher and effect resolution

`Dispatcher::dispatch` routes an action to its modules, `Dispatcher::dispatch_event` routes
an event, and `Core::resolve_effects` turns actions into effects on the state the dispatcher
left behind. All three are functions of the state; what they read from outside is the
`Ambient` argument.
-/

namespace CoreShift

open Utils

/-- What the handlers of one action read besides the state: the clock, and the iteration
order of the results map. -/
structure Ambient where
  now : Instant
  evictNow : Instant
  order : IterOrder JobId StoredResult

/-- The modules that have a state. -/
structure Dispatcher where
  admission : AdmissionControlModule
  timeout : TimeoutPolicyModule

/-- What dispatching an action or an event leaves behind. -/
structure Dispatched where
  dispatcher : Dispatcher
  state : ExecutionState
  actions : List Action

namespace Dispatcher

/-- `Dispatcher::new`, for a given `max_jobs`. -/
def new (maxJobs : ℕ) : Dispatcher := ⟨⟨maxJobs, 0⟩, .new⟩

/-- `Dispatcher::dispatch`. -/
def dispatch (amb : Ambient) (d : Dispatcher) (state : ExecutionState) (action : Action) :
    Dispatched :=
  match action with
  | .submit .. =>
    let adm := d.admission.handle action
    ⟨{ d with admission := adm.1 }, state, adm.2⟩
  | .admitted .. =>
    let life := LifecycleModule.handle state action
    let time := d.timeout.handle amb.now action
    ⟨{ d with timeout := time.1 }, life.1, life.2 ++ time.2⟩
  | .startProcess .. =>
    ⟨d, state, ProcessModule.handle state action ++ IoModule.handle state action⟩
  | .signalProcess .. =>
    let life := LifecycleModule.handle state action
    ⟨d, life.1, life.2 ++ ProcessModule.handle life.1 action⟩
  | .pollProcess .. => ⟨d, state, ProcessModule.handle state action⟩
  | .finished .. =>
    let adm := d.admission.handle action
    let time := d.timeout.handle amb.now action
    let res := ResultModule.handle amb.order amb.now amb.evictNow state action
    ⟨⟨adm.1, time.1⟩, res.1, adm.2 ++ time.2 ++ res.2⟩
  | .control .. => ⟨d, state, ProcessModule.handle state action⟩
  | .timeoutReached .. => ⟨d, state, ProcessModule.handle state action⟩
  | .killDeadlineReached .. => ⟨d, state, ProcessModule.handle state action⟩
  | .query .. =>
    let res := ResultModule.handle amb.order amb.now amb.evictNow state action
    ⟨d, res.1, res.2⟩
  | _ => ⟨d, state, []⟩

/-- `Dispatcher::dispatch_event`. The timeout module is not among the receivers. -/
def dispatchEvent (d : Dispatcher) (state : ExecutionState) (event : Event) : Dispatched :=
  match event with
  | .processStarted .. =>
    let life := LifecycleModule.handleEvent state event
    ⟨d, life.1, life.2 ++ IoModule.handleEvent life.1 event⟩
  | .processSpawnFailed .. =>
    let life := LifecycleModule.handleEvent state event
    ⟨d, life.1, life.2⟩
  | .processExited .. => ⟨d, state, ResultModule.handleEvent state event⟩
  | .jobFdReady .. => ⟨d, state, IoModule.handleEvent state event⟩

/-- `Dispatcher::compute_timeout_ms`. -/
def computeTimeoutMs (order : IterOrder JobId TimeoutEntry) (now : Instant) (d : Dispatcher) :
    Int32 :=
  d.timeout.computeTimeoutMs order now

end Dispatcher

namespace Core

/-- The io handle of a job, if the job is there and has one. -/
def jobIo (state : ExecutionState) (id : JobId) : Option IoHandle :=
  (state.jobs.get id).bind JobState.io

/-- What one action resolves to: an action for the IPC module, or effects. -/
def resolveEffect (state : ExecutionState) : Action → List Action × List Effect
  | .emitLog level event => ([], [.log level event])
  | .registerInterest id stream =>
    match jobIo state id with
    | some io => ([], [.watchStream id io stream])
    | none => ([], [])
  | .removeInterest id stream =>
    match jobIo state id with
    | some io => ([], [.unwatchStream id io stream])
    | none => ([], [])
  | .performIo id =>
    match jobIo state id with
    | some io => ([], [.performIo id io])
    | none => ([], [])
  | .startProcess id exec policy => ([], [.startProcess id exec policy])
  | .signalProcess id signal =>
    match state.jobs.get id with
    | some job =>
      match job.process with
      | some process =>
        ([], [.killProcess id signal process (job.pgroup.isSome || job.isolated)])
      | none => ([], [])
    | none => ([], [])
  | .pollProcess id =>
    match state.jobs.get id with
    | some job =>
      match job.process with
      | some process => ([], [.pollProcess id process])
      | none => ([], [])
    | none => ([], [])
  | a => ([a], [])

/-- `Core::resolve_effects`: the actions for the IPC module, and the effects, in order. -/
def resolveEffects (state : ExecutionState) (actions : List Action) :
    List Action × List Effect :=
  (actions.flatMap fun a => (resolveEffect state a).1,
    actions.flatMap fun a => (resolveEffect state a).2)

end Core
end CoreShift
