import CoreShift.Core.Types

/-!
# Admission control and timeouts

The two modules of `core/policy.rs` that keep a state of their own: the bare job counter
of `AdmissionControlModule`, and the table of deadlines of `TimeoutPolicyModule`.

A handler that reads `Instant::now()` takes the reading as an argument; one that iterates a
map takes the order in which it does.
-/

namespace CoreShift

open Utils

/-! ## Admission -/

structure AdmissionControlModule where
  maxJobs : ℕ
  activeJobs : ℕ
deriving DecidableEq, Repr

namespace AdmissionControlModule

/-- `AdmissionControlModule::default`. -/
def default : AdmissionControlModule := ⟨64, 0⟩

/-- The counter goes up when a submission is let in and down on every `Finished`. -/
def handle (m : AdmissionControlModule) : Action → AdmissionControlModule × List Action
  | .submit id owner exec policy =>
    if m.activeJobs ≥ m.maxJobs then
      (m, [.rejected id,
        .emitLog .error (.error id ("max_jobs " ++ toString m.maxJobs ++ " reached"))])
    else
      ({ m with activeJobs := m.activeJobs + 1 }, [.admitted id owner exec policy])
  | .finished _ _ =>
    if m.activeJobs > 0 then ({ m with activeJobs := m.activeJobs - 1 }, []) else (m, [])
  | _ => (m, [])

end AdmissionControlModule

/-! ## Timeouts -/

inductive TimeoutState
  | waitingForDeadline
  | waitingForKillGrace (deadline : Instant)
deriving DecidableEq, Repr

structure TimeoutEntry where
  id : JobId
  state : TimeoutState
  deadline : Instant
  killGraceMs : UInt32
deriving DecidableEq, Repr

structure TimeoutPolicyModule where
  tracking : HashMap JobId TimeoutEntry

namespace TimeoutPolicyModule

/-- `TimeoutPolicyModule::new`. -/
def new : TimeoutPolicyModule := ⟨.empty⟩

/-- The moment an entry waits for. -/
def currentDeadline (entry : TimeoutEntry) : Instant :=
  match entry.state with
  | .waitingForDeadline => entry.deadline
  | .waitingForKillGrace d => d

/-- The milliseconds left until an entry's deadline, after the cast `as i32`. -/
def remainingMs (now : Instant) (entry : TimeoutEntry) : Int32 :=
  if currentDeadline entry > now then
    Int32.ofNat ((currentDeadline entry - now) / 1000000)
  else 0

/-- The sleep before `epoll_wait`: the least remaining time, `-1` if nothing is tracked. -/
def computeTimeoutMs (order : IterOrder JobId TimeoutEntry) (now : Instant)
    (m : TimeoutPolicyModule) : Int32 :=
  (order.iter m.tracking).foldl
    (fun minMs e =>
      let ms := remainingMs now e.2
      if minMs = -1 ∨ ms < minMs then ms else minMs)
    (-1)

/-- An admitted job is logged, and tracked if its policy has a timeout; a finished job is
forgotten. -/
def handle (now : Instant) (m : TimeoutPolicyModule) :
    Action → TimeoutPolicyModule × List Action
  | .admitted id _ _ policy =>
    ( match policy.timeoutMs with
      | some t => ⟨m.tracking.insert id
          { id := id, state := .waitingForDeadline,
            deadline := now + durationFromMillis t.toNat, killGraceMs := policy.killGraceMs }⟩
      | none => m,
      [.emitLog .info (.submit id)])
  | .finished id _ => (⟨m.tracking.remove id⟩, [])
  | _ => (m, [])

/-- What one entry does when an event is handled at `now`. -/
def fire (now : Instant) (entry : TimeoutEntry) : TimeoutEntry × List Action :=
  match entry.state with
  | .waitingForDeadline =>
    if now ≥ entry.deadline then
      ({ entry with
          state := .waitingForKillGrace (now + durationFromMillis entry.killGraceMs.toNat) },
        [.emitLog .info (.timeout entry.id), .timeoutReached entry.id])
    else (entry, [])
  | .waitingForKillGrace graceDeadline =>
    if now ≥ graceDeadline then (entry, [.killDeadlineReached entry.id]) else (entry, [])

/-- `TimeoutPolicyModule::handle_event`: every entry is looked at, whatever the event. -/
def handleEvent (order : IterOrder JobId TimeoutEntry) (now : Instant)
    (m : TimeoutPolicyModule) : TimeoutPolicyModule × List Action :=
  let entries := order.iter m.tracking
  (⟨entries.foldl (fun tracking e => tracking.insert e.1 (fire now e.2).1) m.tracking⟩,
    entries.flatMap fun e => (fire now e.2).2)

end TimeoutPolicyModule
end CoreShift
