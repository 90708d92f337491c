import CoreShift.Loop
import CoreShift.LowLevel.Spawn

/-!
# The effect executor

`runtime.rs`: handles are numbers from a counter, processes and drains are kept under their
handles, and a watched descriptor's token leads back to its job. The kernel and `spawn_start`
contribute an `OsAnswer` to every effect.
-/

namespace CoreShift

open Utils

/-- The outcomes of the calls that one effect can make. -/
structure OsAnswer where
  spawn : Except SysError RunningProcess
  wait : List WaitAnswer
  epollAdded : Bool
  stdout : List ReadAnswer
  stderr : List ReadAnswer
  stdin : List WriteAnswer

structure EffectExecutor where
  fdMap : HashMap Token JobId
  processes : HashMap ProcessHandle Process
  drains : HashMap IoHandle DrainState
  sink : List (LogLevel × String)
  nextHandle : UInt64

namespace EffectExecutor

def new : EffectExecutor := ⟨.empty, .empty, .empty, [], 1⟩

/-- `gen_handle`. -/
def genHandle (x : EffectExecutor) : UInt64 × EffectExecutor :=
  (x.nextHandle, { x with nextHandle := x.nextHandle + 1 })

/-- The `Debug` text of an exit status. -/
def statusText : Option Int32 → String
  | some s => "Some(" ++ toString s.toInt ++ ")"
  | none => "None"

/-- The text of a log event. -/
def logMessage : LogEvent → String
  | .submit id => "Submit id=" ++ toString id.toNat
  | .spawn id pid => "Spawn id=" ++ toString id.toNat ++ ", pid=" ++ toString pid.toInt
  | .cancel id => "Cancel id=" ++ toString id.toNat
  | .forceKill id => "ForceKill id=" ++ toString id.toNat
  | .exit id status => "Exit id=" ++ toString id.toNat ++ ", status=" ++ statusText status
  | .timeout id => "Timeout id=" ++ toString id.toNat
  | .error id err => "Error id=" ++ toString id.toNat ++ ", err=" ++ err

/-- The descriptor of a stream of a drain. -/
def streamFd (drain : DrainState) : IoStream → Option RawFd
  | .stdout => drain.stdoutSlot.map FdSlot.fd
  | .stderr => drain.stderrSlot.map FdSlot.fd
  | .stdin => drain.stdinSlot.map FdSlot.fd

/-- `Token(fd as u64)`. -/
def fdToken (fd : RawFd) : Token := ⟨fd.toInt64.toUInt64⟩

/-- The io of a ready job: both outputs are read, then the input is written. -/
def performIo (drain : DrainState) (ans : OsAnswer) : DrainState :=
  let drain := if drain.stdoutSlot.isSome then (drain.readFd true ans.stdout).1 else drain
  let drain := if drain.stderrSlot.isSome then (drain.readFd false ans.stderr).1 else drain
  if drain.stdinSlot.isSome then (drain.writeStdin ans.stdin).1 else drain

/-- The options with which a `StartProcess` calls `spawn_start`. -/
def startOptions (exec : ExecSpec) (policy : ExecPolicy) : SpawnOptions :=
  { ctx := .new exec.argv none none
    stdin := exec.stdin
    captureStdout := exec.captureStdout
    captureStderr := exec.captureStderr
    wait := false
    pgroup := .default
    maxOutput := exec.maxOutput
    timeoutMs := none
    killGraceMs := policy.killGraceMs
    cancel := policy.cancel
    backend := .auto
    earlyExit := none }

/-- `EffectExecutor::apply`. -/
def apply (x : EffectExecutor) (effect : Effect) (ans : OsAnswer) :
    EffectExecutor × Option Event :=
  match effect with
  | .log level event => ({ x with sink := x.sink ++ [(level, logMessage event)] }, none)
  | .watchStream id io stream =>
    match (x.drains.get io).bind fun drain => streamFd drain stream with
    | some fd =>
      if ans.epollAdded then ({ x with fdMap := x.fdMap.insert (fdToken fd) id }, none)
      else (x, none)
    | none => (x, none)
  | .unwatchStream _ io stream =>
    match (x.drains.get io).bind fun drain => streamFd drain stream with
    | some fd => ({ x with fdMap := x.fdMap.remove (fdToken fd) }, none)
    | none => (x, none)
  | .startProcess id _ _ =>
    match ans.spawn with
    | .ok running =>
      let (h, x) := x.genHandle
      let (h', x) := x.genHandle
      ({ x with
          processes := x.processes.insert ⟨h⟩ running.process
          drains := x.drains.insert ⟨h'⟩ running.drain },
        some (.processStarted id ⟨h⟩ ⟨h'⟩))
    | .error e => (x, some (.processSpawnFailed id ("spawn_failed: " ++ e.toText)))
  -- the results of `kill` and `kill_pgroup` are discarded
  | .killProcess _ _ _ _ => (x, none)
  | .pollProcess id process =>
    match x.processes.get process with
    | some proc =>
      match proc.waitStep ans.wait with
      | .ok (some (.exited code)) => (x, some (.processExited id (some code)))
      | .ok (some (.signaled signal)) => (x, some (.processExited id (some (-signal))))
      | .ok none => (x, none)
      | .error _ => (x, some (.processExited id none))
    | none => (x, none)
  | .performIo _ io =>
    match x.drains.get io with
    | some drain => ({ x with drains := x.drains.insert io (performIo drain ans) }, none)
    | none => (x, none)

/-- Effects are answered by the events the core expects. -/
theorem apply_answers (x : EffectExecutor) (e : Effect) (ans : OsAnswer) :
    Answers e (x.apply e ans).2 := by
  cases e with
  | log | killProcess => rfl
  | watchStream id io stream =>
    unfold apply
    dsimp only
    split
    · split <;> rfl
    · rfl
  | unwatchStream id io stream =>
    unfold apply
    dsimp only
    split <;> rfl
  | performIo id io =>
    unfold apply
    dsimp only
    split <;> rfl
  | startProcess id exec policy =>
    unfold apply
    dsimp only
    split
    · exact Or.inl ⟨_, _, rfl⟩
    · exact Or.inr ⟨_, rfl⟩
  | pollProcess id process =>
    unfold apply
    dsimp only
    split
    · split
      · exact Or.inr ⟨_, rfl⟩
      · exact Or.inr ⟨_, rfl⟩
      · exact Or.inl rfl
      · exact Or.inr ⟨_, rfl⟩
    · exact Or.inl rfl

/-- The executor that `run_daemon` uses. -/
def executor : Executor EffectExecutor OsAnswer where
  apply := apply
  answers := apply_answers

/-- The events of `process_reactor_events`: the ready descriptors that belong to a job. -/
def jobEvents (x : EffectExecutor) (events : List ReactorEvent) : List Event :=
  events.filterMap fun ev =>
    (x.fdMap.get ev.token).map fun id => .jobFdReady id ev.readable ev.writable ev.error

theorem jobEvents_ready (x : EffectExecutor) (events : List ReactorEvent) :
    ∀ ev ∈ x.jobEvents events, ev.isReady = true := by
  intro ev hev
  rcases List.mem_filterMap.mp hev with ⟨rev, -, hrev⟩
  rcases Option.map_eq_some_iff.mp hrev with ⟨id, -, rfl⟩
  rfl

end EffectExecutor

/-! ## Answers for small runs -/

/-- A drain without pipes. -/
def DrainState.detached : DrainState := ⟨none, none, none, .new 0, .new none, none⟩

namespace OsAnswer

/-- A child is started with the given pid; it is running. -/
def started (pid : Int32) : OsAnswer := ⟨.ok ⟨⟨pid⟩, .detached⟩, [], true, [], [], []⟩

/-- The child can be reaped. -/
def exited : OsAnswer := { started 0 with wait := [.reaped 0] }

/-- The child was reaped before. -/
def gone : OsAnswer := { started 0 with wait := [.fail ECHILD] }

/-- No child can be started. -/
def spawnFails : OsAnswer := { started 0 with spawn := .error ⟨EAGAIN, "posix_spawn"⟩ }

end OsAnswer

/-- A command without arguments whose output is not captured. -/
def ExecSpec.bare : ExecSpec := ⟨[], none, false, false, 0⟩

/-- A policy with the timeout `ms`, if any, and a second of grace. -/
def ExecPolicy.graceful (ms : Option UInt32) : ExecPolicy := ⟨ms, 1000, .graceful⟩

/-- A clock that stands still, and some order of iteration. -/
noncomputable def Ambient.still (now : Instant) : Ambient := ⟨now, now, default⟩

namespace EffectExecutor

/-- The loop after one job with a timeout of a millisecond was submitted and started. -/
noncomputable def startJob : List (Action × PopLog) × Loop EffectExecutor :=
  Loop.batch executor [.submit 1 0 .bare (.graceful (some 1))]
    (List.replicate 9 (.still 0, .started 100)) (.init 1 .new)

theorem startJob_run : Run (Loop.Step executor) (.init 1 .new)
    (.feed [.submit 1 0 .bare (.graceful (some 1))] [] :: Loop.popLabels startJob.1)
    startJob.2 :=
  Loop.batch_run executor _ rfl (by decide)

/-- Some pops at time 1, in which every start succeeds and every child keeps running. -/
noncomputable def popAll (n : ℕ) (c : Loop EffectExecutor) :
    List (Action × PopLog) × Loop EffectExecutor :=
  Loop.runPops executor (List.replicate n (.still 1, .started 0)) c

/-- One such pop. -/
theorem pop_step (c : Loop EffectExecutor) {l : Action × PopLog} (c' : Loop EffectExecutor)
    (h : Loop.pop executor (.still 1) (.started 0) c = some (l, c')) :
    Loop.Step executor c (.pop l.1 l.2) c' := .pop (Loop.pop_eq_some h)

theorem popAll_run (n : ℕ) (c : Loop EffectExecutor) :
    Run (Loop.Step executor) c (Loop.popLabels (popAll n c).1) (popAll n c).2 :=
  Loop.run_of_pops (Loop.runPops_run executor _ c)

end EffectExecutor
end CoreShift
