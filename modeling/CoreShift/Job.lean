import CoreShift.Loop

/-!
# One job as a machine of its own

The loop keeps all jobs in shared maps and one queue. Seen from a single job it is a small
machine: a `JobView` holds the job's entries of the four maps, and `JobView.react` says what
the job's own actions do to it. Nothing here mentions other jobs; that the loop behaves like
this machine for every job is proved in `JobTheorems`.
-/

namespace CoreShift

open Utils WorkQueue

/-- The entries of one job. -/
@[ext] structure JobView where
  job : Option JobState
  lifecycle : Option JobLifecycle
  timer : Option TimeoutEntry
  stored : Option StoredResult

/-- What a reaction depends on besides the job's entries: the clock, the admission counter,
and the event that answered the effect of the action. -/
structure JobEnv where
  now : Instant
  admission : AdmissionControlModule
  answer : Option Event

/-- The reaction of a job to an action of its own. -/
structure Reaction where
  view : JobView
  out : List Action
  effects : List Effect

namespace JobView

/-- A job that has a process and was not yet asked to stop can be signalled. -/
def signalable (v : JobView) : Bool :=
  match v.job with
  | some job => job.process.isSome && !job.timedOut
  | none => false

/-- The job created by an admission. -/
def freshJob (id : JobId) (owner : UInt32) : JobState :=
  { id := id, owner := owner, process := none, io := none, timedOut := false,
    pgroup := none, isolated := false }

/-- The timer entry of an admission under a policy with a timeout of `t`. -/
def freshTimer (now : Instant) (id : JobId) (policy : ExecPolicy) (t : UInt32) : TimeoutEntry :=
  { id := id, state := .waitingForDeadline, deadline := now + durationFromMillis t.toNat,
    killGraceMs := policy.killGraceMs }

def onAdmitted (now : Instant) (v : JobView) (id : JobId) (owner : UInt32) (exec : ExecSpec)
    (policy : ExecPolicy) : Reaction :=
  ⟨{ v with
      job := some (freshJob id owner)
      lifecycle := some .admitted
      timer := match policy.timeoutMs with
        | some t => some (freshTimer now id policy t)
        | none => v.timer },
    [.startProcess id exec policy, .emitLog .info (.submit id)], []⟩

/-- The three `RegisterInterest` actions that follow a start. -/
def interests (id : JobId) : List Action :=
  [.registerInterest id .stdout, .registerInterest id .stderr, .registerInterest id .stdin]

def onStartProcess (answer : Option Event) (v : JobView) (id : JobId) (exec : ExecSpec)
    (policy : ExecPolicy) : Reaction :=
  match answer with
  | some (.processStarted _ process io) =>
    match v.job with
    | some job =>
      ⟨{ v with
          job := some { job with process := some process, io := some io }
          lifecycle := some .running },
        .started id :: interests id, [.startProcess id exec policy]⟩
    | none => ⟨v, interests id, [.startProcess id exec policy]⟩
  | some (.processSpawnFailed _ err) =>
    ⟨{ v with lifecycle := some .finished }, [.rejected id, .emitLog .error (.error id err)],
      [.startProcess id exec policy]⟩
  | _ => ⟨v, [], [.startProcess id exec policy]⟩

/-- The signal a job's process gets, if it has a process. -/
def killEffects (id : JobId) (signal : ControlSignal) (job : JobState) : List Effect :=
  match job.process with
  | some process => [.killProcess id signal process (job.pgroup.isSome || job.isolated)]
  | none => []

def onSignalProcess (v : JobView) (id : JobId) (signal : ControlSignal) : Reaction :=
  match v.job with
  | some job =>
    match signal with
    | .gracefulStop =>
      ⟨{ v with job := some { job with timedOut := true }, lifecycle := some .terminating },
        [], killEffects id signal job⟩
    | .forceKill => ⟨{ v with lifecycle := some .killed }, [], killEffects id signal job⟩
  | none => ⟨v, [], []⟩

def onPollProcess (answer : Option Event) (v : JobView) (id : JobId) : Reaction :=
  match v.job with
  | some job =>
    match job.process with
    | some process =>
      match answer with
      | some (.processExited _ status) =>
        ⟨v, [.finished id (.ok ⟨status, [], [], job.timedOut⟩)], [.pollProcess id process]⟩
      | _ => ⟨v, [], [.pollProcess id process]⟩
    | none => ⟨v, [], []⟩
  | none => ⟨v, [], []⟩

/-- The exit status logged for a result. -/
def statusOf : Except ExecError ExecResult → Option Int32
  | .ok r => r.status
  | .error _ => none

def onFinished (now : Instant) (v : JobView) (id : JobId)
    (result : Except ExecError ExecResult) : Reaction :=
  match v.job with
  | some job =>
    ⟨{ v with job := none, timer := none, stored := some ⟨result, job.owner, now⟩ },
      [.emitLog .info (.exit id (statusOf result))], []⟩
  | none => ⟨{ v with timer := none }, [], []⟩

def onQuery (v : JobView) (id : JobId) : Reaction :=
  match v.stored with
  | some res => ⟨{ v with stored := none }, [.queryResult id (some ⟨id, res.result⟩)], []⟩
  | none => ⟨v, [.queryResult id none], []⟩

/-- An effect that needs the job's io handle. -/
def ioEffects (v : JobView) (f : IoHandle → Effect) : List Effect :=
  match v.job.bind JobState.io with
  | some io => [f io]
  | none => []

/-- What each action of the job does. -/
def react (env : JobEnv) (v : JobView) (a : Action) : Reaction :=
  match a with
  | .submit .. => ⟨v, (env.admission.handle a).2, []⟩
  | .admitted id owner exec policy => onAdmitted env.now v id owner exec policy
  | .startProcess id exec policy => onStartProcess env.answer v id exec policy
  | .signalProcess id signal => onSignalProcess v id signal
  | .pollProcess id => onPollProcess env.answer v id
  | .finished id result => onFinished env.now v id result
  | .query id => onQuery v id
  | .control id signal =>
    ⟨v, if v.signalable then [.signalProcess id signal, .controlled id] else [], []⟩
  | .timeoutReached id =>
    ⟨v, if v.signalable then [.signalProcess id .gracefulStop] else [], []⟩
  | .killDeadlineReached id =>
    ⟨v, if v.signalable then [.signalProcess id .forceKill] else [], []⟩
  | .performIo id => ⟨v, [], v.ioEffects (.performIo id)⟩
  | .registerInterest id stream => ⟨v, [], v.ioEffects (.watchStream id · stream)⟩
  | .removeInterest id stream => ⟨v, [], v.ioEffects (.unwatchStream id · stream)⟩
  | .emitLog level event => ⟨v, [], [.log level event]⟩
  | .rejected _ | .started _ | .controlled _ | .queryResult _ _ => ⟨v, [], []⟩

end JobView

/-- The entries of a job in a world. -/
def World.view {σ : Type} (w : World σ) (id : JobId) : JobView :=
  ⟨w.state.jobs.get id, w.state.lifecycle.get id, w.dispatcher.timeout.tracking.get id,
    w.state.results.get id⟩

/-- Nothing that was stored, or is stored by this pop, is evicted in it: only the query of a
job takes the job's result away. -/
def World.KeepsResults {σ : Type} (w : World σ) (a : Action) (w' : World σ) : Prop :=
  (∀ id, (w.state.results.get id).isSome → (w'.state.results.get id).isSome ∨ a = .query id) ∧
    ∀ id result, a = .finished id result → (w.state.jobs.get id).isSome →
      (w'.state.results.get id).isSome

end CoreShift
