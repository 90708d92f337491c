import CoreShift.Core.Types
import Mathlib.Data.List.Sort

/-!
# The modules without a state of their own

`LifecycleModule`, `ProcessModule`, `IoModule` and `ResultModule`. They read and write the
shared `ExecutionState` only; a handler that does not change it returns actions alone.
-/

namespace CoreShift

open Utils

/-! ## Lifecycle -/

namespace LifecycleModule

/-- Creates the job of an admission, and notes a signal in the job's state. -/
def handle (state : ExecutionState) : Action → ExecutionState × List Action
  | .admitted id owner exec policy =>
    let job : JobState :=
      { id := id, owner := owner, process := none, io := none, timedOut := false,
        pgroup := none, isolated := false }
    ({ state with
        jobs := state.jobs.insert id job
        lifecycle := state.lifecycle.insert id .admitted },
      [.startProcess id exec policy])
  | .signalProcess id signal =>
    match state.jobs.get id with
    | some job =>
      match signal with
      | .gracefulStop =>
        ({ state with
            jobs := state.jobs.insert id { job with timedOut := true }
            lifecycle := state.lifecycle.insert id .terminating }, [])
      | .forceKill => ({ state with lifecycle := state.lifecycle.insert id .killed }, [])
    | none => (state, [])
  | _ => (state, [])

def handleEvent (state : ExecutionState) : Event → ExecutionState × List Action
  | .processStarted id process io =>
    match state.jobs.get id with
    | some job =>
      ({ state with
          jobs := state.jobs.insert id { job with process := some process, io := some io }
          lifecycle := state.lifecycle.insert id .running },
        [.started id])
    | none => (state, [])
  | .processSpawnFailed id err =>
    ({ state with lifecycle := state.lifecycle.insert id .finished },
      [.rejected id, .emitLog .error (.error id err)])
  | _ => (state, [])

end LifecycleModule

/-! ## Process -/

namespace ProcessModule

/-- The guard of all three handlers: the job is there, has a process, and no graceful stop
has been noted yet. -/
def signalable (state : ExecutionState) (id : JobId) : Bool :=
  match state.jobs.get id with
  | some job => job.process.isSome && !job.timedOut
  | none => false

/-- Translates outside control and the two timer actions into `SignalProcess`. -/
def handle (state : ExecutionState) : Action → List Action
  | .control id signal =>
    if signalable state id then [.signalProcess id signal, .controlled id] else []
  | .timeoutReached id =>
    if signalable state id then [.signalProcess id .gracefulStop] else []
  | .killDeadlineReached id =>
    if signalable state id then [.signalProcess id .forceKill] else []
  | _ => []

end ProcessModule

/-! ## Io -/

namespace IoModule

/-- `IoModule::handle` answers no action. -/
def handle (_state : ExecutionState) (_action : Action) : List Action := []

def handleEvent (state : ExecutionState) : Event → List Action
  | .processStarted id _ _ =>
    [.registerInterest id .stdout, .registerInterest id .stderr, .registerInterest id .stdin]
  | .jobFdReady jobId _ _ _ => if state.jobs.contains jobId then [.performIo jobId] else []
  | _ => []

end IoModule

/-! ## Result -/

namespace ResultModule

/-- Five minutes, `Duration::from_secs(60 * 5)`. -/
def ttl : ℕ := durationFromMillis (60 * 5 * 1000)

def maxResults : ℕ := 1000

/-- The results within their time to live. -/
def retainLive (now : Instant) (results : HashMap JobId StoredResult) :
    HashMap JobId StoredResult :=
  results.retain fun _ res => now - res.created ≤ ttl

/-- The ids of the oldest results, as many as there are beyond `maxResults`. `sort_by_key` is
stable, as `mergeSort` is. -/
def surplus (order : IterOrder JobId StoredResult) (live : HashMap JobId StoredResult) :
    List JobId :=
  let entries := (order.iter live).map fun e => (e.1, e.2.created)
  let sorted := entries.mergeSort fun a b => a.2 ≤ b.2
  (sorted.take (live.len - maxResults)).map Prod.fst

/-- Drops the results past their time to live, then the oldest ones beyond `maxResults`. -/
def evictResults (order : IterOrder JobId StoredResult) (now : Instant)
    (state : ExecutionState) : ExecutionState :=
  let live := retainLive now state.results
  { state with
    results := if live.len > maxResults then live.removeAll (surplus order live) else live }

/-- A query takes the stored result away. A finished job is replaced by its result;
`now` stamps it, `evictNow` is the later reading of the eviction. -/
def handle (order : IterOrder JobId StoredResult) (now evictNow : Instant)
    (state : ExecutionState) : Action → ExecutionState × List Action
  | .query id =>
    match state.results.get id with
    | some res =>
      ({ state with results := state.results.remove id },
        [.queryResult id (some { id := id, result := res.result })])
    | none => (state, [.queryResult id none])
  | .finished id result =>
    match state.jobs.get id with
    | some job =>
      let status := match result with
        | .ok r => r.status
        | .error _ => none
      let stored : StoredResult := { result := result, owner := job.owner, created := now }
      (evictResults order evictNow
          { state with
            jobs := state.jobs.remove id
            results := state.results.insert id stored },
        [.emitLog .info (.exit id status)])
    | none => (evictResults order evictNow state, [])
  | _ => (state, [])

/-- An exit is turned into `Finished` with empty output. -/
def handleEvent (state : ExecutionState) : Event → List Action
  | .processExited id status =>
    match state.jobs.get id with
    | some job =>
      [.finished id (.ok ⟨status, [], [], job.timedOut⟩)]
    | none => []
  | _ => []

end ResultModule
end CoreShift
