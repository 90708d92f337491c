import CoreShift.LowLevel.Exec
import CoreShift.LowLevel.Io

/-!
# Starting a child

`spawn_start` of `low_level/spawn` with its two backends. The outcome of every system call is
part of a `SpawnAnswers`; what the calls do to descriptors and children is returned as a list
of `SpawnOp`, in which an `Fd` that goes out of scope shows as `closed`.
-/

namespace CoreShift

open Utils

/-! ## Options -/

inductive SpawnBackend
  | auto
  | posixSpawn
  | fork
deriving DecidableEq, Repr

inductive Backend
  | posixSpawn
  | fork
deriving DecidableEq, Repr

structure SpawnOptions where
  ctx : ExecContext
  stdin : Option Bytes
  captureStdout : Bool
  captureStderr : Bool
  wait : Bool
  pgroup : ProcessGroup
  maxOutput : ℕ
  timeoutMs : Option UInt32
  killGraceMs : UInt32
  cancel : CancelPolicy
  backend : SpawnBackend
  earlyExit : Option (Bytes → Bool)

/-- `force_fork`. -/
def forceFork (opts : SpawnOptions) : Bool := opts.pgroup.isolated || opts.ctx.cwd.isSome

/-- `resolve_backend`; `selected` is the choice of `select_backend`, which depends on the
platform only and is made once. -/
def resolveBackend (selected : Backend) (opts : SpawnOptions) : Backend :=
  if forceFork opts then .fork
  else
    match opts.backend with
    | .auto => selected
    | .posixSpawn => .posixSpawn
    | .fork => .fork

/-! ## What the child is told to do -/

/-- What `posix_spawn` and `execve` are given. -/
structure ExecImage where
  path : CString
  argv : List CPointer
  envp : List CPointer

/-- The image of a context in a process with the environment `environ`. -/
def ExecContext.image (ctx : ExecContext) (environ : List CPointer) : ExecImage :=
  { path := ctx.exe
    argv := ctx.getArgvPtrs.items
    envp := match ctx.getEnvpPtrs with
      | some ptrs => ptrs.items
      | none => environ }

inductive FileAction
  | addDup2 (fd newFd : RawFd)
  | addClose (fd : RawFd)
deriving DecidableEq, Repr

def POSIX_SPAWN_SETPGROUP : Int32 := 2
def POSIX_SPAWN_SETSIGDEF : Int32 := 4
def POSIX_SPAWN_SETSIGMASK : Int32 := 8

/-- The attributes of a `posix_spawn`; the signal mask is empty. -/
structure SpawnAttr where
  flags : Int32
  pgroup : Option Int32
  sigdefault : List Int32
deriving DecidableEq, Repr

/-- A step of the forked child before its `execve`. -/
inductive ChildStep
  | dup2 (fd target : RawFd)
  | closeRangeFast (keepFd : Option RawFd)
  | setsid
  | chdir (cwd : CString)
  | setpgid (pgroup : Int32)
  | unblockAll
  | resetDefault (signal : Int32)
deriving DecidableEq

inductive ChildProgram
  | posixSpawn (actions : List FileAction) (attr : SpawnAttr) (image : ExecImage)
  | forked (steps : List ChildStep) (image : ExecImage)

def ChildProgram.image : ChildProgram → ExecImage
  | .posixSpawn _ _ image => image
  | .forked _ image => image

/-! ## Pipes -/

/-- The two ends of a new pipe. The kernel's numbers are not negative, so that `Fd::new` takes
them. -/
structure PipeEnds where
  r : RawFd
  w : RawFd
  r_nonneg : 0 ≤ r
  w_nonneg : 0 ≤ w
deriving DecidableEq

/-- What spawning does to descriptors and children. -/
inductive SpawnOp
  | piped (ends : PipeEnds)
  | closed (fd : RawFd)
  -- `mem::forget`: nothing will close the descriptor any more
  | forgotten (fd : RawFd)
  | watched (fd : RawFd) (token : Token)
  | unwatched (fd : RawFd)
  | polled (timeout : Int32)
  -- bytes that the child's input took
  | wrote (fd : RawFd) (bytes : Bytes)
  | started (pid : Int32) (program : ChildProgram)
  | reaped (pid : Int32)
  | signalled (target signal : Int32)

/-- The result of a call, and what it did. -/
structure Spawned (α : Type) where
  result : α
  ops : List SpawnOp

/-- The pipes of a child; either both ends of one are there or none. -/
structure Pipes where
  stdin : Option PipeEnds
  stdout : Option PipeEnds
  stderr : Option PipeEnds

def PipeEnds.both (p : PipeEnds) : List RawFd := [p.r, p.w]

/-- `make_pipe`. -/
def makePipe : Except Int32 PipeEnds → Except SysError PipeEnds
  | .ok ends => .ok ends
  | .error code => .error ⟨code, "pipe2"⟩

/-- A pipe for a stream, if it is wanted. -/
def pipeIf (wanted : Bool) (answer : Except Int32 PipeEnds) : Except SysError (Option PipeEnds) :=
  if wanted then
    match makePipe answer with
    | .ok ends => .ok (some ends)
    | .error e => .error e
  else .ok none

/-- The calls that made a pipe, and the drops of its ends. -/
def pipedOps (p : Option PipeEnds) : List SpawnOp := p.toList.map .piped

def droppedOps (fds : List RawFd) : List SpawnOp := fds.map .closed

/-- The ends of a pipe, if there is one. -/
def bothEnds (p : Option PipeEnds) : List RawFd := p.toList.flatMap PipeEnds.both

namespace Pipes

/-- The descriptors, in the order of the fields of the source. -/
def fds (p : Pipes) : List RawFd := bothEnds p.stdin ++ bothEnds p.stdout ++ bothEnds p.stderr

/-- The ends that only the child needs. -/
def childEnds (p : Pipes) : List RawFd :=
  p.stdin.toList.map PipeEnds.r ++ p.stdout.toList.map PipeEnds.w ++ p.stderr.toList.map PipeEnds.w

/-- `Pipes::new`. The pipes made before one that fails are dropped, the latest first. -/
def new (inBuf : Option Bytes) (out err : Bool) (pipe : IoStream → Except Int32 PipeEnds) :
    Spawned (Except SysError Pipes) :=
  match pipeIf inBuf.isSome (pipe .stdin) with
  | .error e => ⟨.error e, []⟩
  | .ok stdin =>
    match pipeIf out (pipe .stdout) with
    | .error e => ⟨.error e, pipedOps stdin ++ droppedOps (bothEnds stdin).reverse⟩
    | .ok stdout =>
      match pipeIf err (pipe .stderr) with
      | .error e =>
        ⟨.error e, pipedOps stdin ++ pipedOps stdout ++
          droppedOps ((bothEnds stdout).reverse ++ (bothEnds stdin).reverse)⟩
      | .ok stderr =>
        ⟨.ok ⟨stdin, stdout, stderr⟩, pipedOps stdin ++ pipedOps stdout ++ pipedOps stderr⟩

/-- `Pipes::close_all`, which is also what dropping the pipes does. -/
def closeAll (p : Pipes) : List SpawnOp := droppedOps p.fds

end Pipes

/-! ## The two backends -/

/-- The outcomes of the calls of `spawn_start`, and what it finds in the process. -/
structure SpawnAnswers where
  selected : Backend
  environ : List CPointer
  pipe : IoStream → Except Int32 PipeEnds
  -- what a `posix_` function returns, by the name that its error carries
  posix : String → Int32
  -- the directory `/proc/self/fd`: its own descriptor and the numbers it lists
  directory : Option (RawFd × List RawFd)
  addsClose : RawFd → Bool
  -- the `errno` of a failed `fork`
  fork : Option Int32
  pid : Int32
  nonblock : IoStream → Except SysError Unit

/-- `posix_ret`. -/
def posixRet (ret : Int32) (op : String) : Except SysError Unit :=
  if ret ≠ 0 then .error ⟨ret, op⟩ else .ok ()

/-- Calls that are made one after the other until one of them fails. -/
def posixCalls (posix : String → Int32) : List String → Except SysError Unit
  | [] => .ok ()
  | op :: ops =>
    match posixRet (posix op) op with
    | .error e => .error e
    | .ok () => posixCalls posix ops

/-- The calls that `spawn_posix_internal` checks for the pipes that are there, up to the
`posix_spawn` itself. -/
def posixSteps (stdin stdout stderr leader : Bool) : List String :=
  ["file_actions_init"] ++
  (if stdin then ["dup2 stdin", "close stdin pipe", "close stdin write pipe"] else []) ++
  (if stdout then ["dup2 stdout", "close stdout pipe", "close stdout read pipe"] else []) ++
  (if stderr then ["dup2 stderr", "close stderr pipe", "close stderr read pipe"] else []) ++
  ["attr_init"] ++ (if leader then ["setpgroup"] else []) ++
  ["setflags", "setsigmask", "setsigdefault", "posix_spawn"]

/-- The file actions: those of the pipes, then a close for every listed descriptor above 2,
but for the directory's own. -/
def fileActions (pipes : Pipes) (ans : SpawnAnswers) : List FileAction :=
  (pipes.stdin.toList.flatMap fun p => [.addDup2 p.r 0, .addClose p.r, .addClose p.w]) ++
  (pipes.stdout.toList.flatMap fun p => [.addDup2 p.w 1, .addClose p.w, .addClose p.r]) ++
  (pipes.stderr.toList.flatMap fun p => [.addDup2 p.w 2, .addClose p.w, .addClose p.r]) ++
  match ans.directory with
  | some (dirFd, listed) =>
    (listed.filter fun fd => 2 < fd ∧ fd ≠ dirFd ∧ ans.addsClose fd = true).map .addClose
  | none => []

def spawnAttr (opts : SpawnOptions) : SpawnAttr :=
  let signals := POSIX_SPAWN_SETSIGMASK ||| POSIX_SPAWN_SETSIGDEF
  { flags := if opts.pgroup.leader.isSome then POSIX_SPAWN_SETPGROUP ||| signals else signals
    pgroup := opts.pgroup.leader
    sigdefault := [SIGPIPE] }

/-- The steps of the forked child. A pipe end that already has the number it is meant to have
is not duplicated. -/
def childSteps (opts : SpawnOptions) (pipes : Pipes) : List ChildStep :=
  (pipes.stdin.toList.flatMap fun p => if p.r ≠ 0 then [.dup2 p.r 0] else []) ++
  (pipes.stdout.toList.flatMap fun p => if p.w ≠ 1 then [.dup2 p.w 1] else []) ++
  (pipes.stderr.toList.flatMap fun p => if p.w ≠ 2 then [.dup2 p.w 2] else []) ++
  [.closeRangeFast none] ++ (if opts.pgroup.isolated then [.setsid] else []) ++
  opts.ctx.cwd.toList.map .chdir ++ opts.pgroup.leader.toList.map .setpgid ++
  [.unblockAll, .resetDefault SIGPIPE]

/-- The end of both backends, in the parent: the child's ends of the pipes are dropped and the
others go into a drain. A drain that cannot be made drops what it was given. -/
def handOver (jobId : JobId) (opts : SpawnOptions) (pipes : Pipes)
    (nonblock : IoStream → Except SysError Unit) : Spawned (Except SysError DrainState) :=
  let stdinW := pipes.stdin.map PipeEnds.w
  let stdoutR := pipes.stdout.map PipeEnds.r
  let stderrR := pipes.stderr.map PipeEnds.r
  match DrainState.new jobId (if opts.stdin.isSome then stdinW else none) opts.stdin stdoutR
      stderrR opts.maxOutput opts.earlyExit nonblock with
  | .ok drain =>
    ⟨.ok drain, droppedOps (pipes.childEnds ++ if opts.stdin.isSome then [] else stdinW.toList)⟩
  | .error e =>
    ⟨.error e,
      droppedOps (pipes.childEnds ++ stderrR.toList ++ stdoutR.toList ++ stdinW.toList)⟩

/-- `spawn_posix_internal`. -/
def spawnPosixInternal (jobId : JobId) (opts : SpawnOptions) (ans : SpawnAnswers) :
    Spawned (Except SysError (Int32 × DrainState)) :=
  let made := Pipes.new opts.stdin opts.captureStdout opts.captureStderr ans.pipe
  match made.result with
  | .error e => ⟨.error e, made.ops⟩
  | .ok pipes =>
    let steps := posixSteps pipes.stdin.isSome pipes.stdout.isSome pipes.stderr.isSome
      opts.pgroup.leader.isSome
    match posixCalls ans.posix steps with
    | .error e => ⟨.error e, made.ops ++ pipes.closeAll⟩
    | .ok () =>
      let program : ChildProgram :=
        .posixSpawn (fileActions pipes ans) (spawnAttr opts) (opts.ctx.image ans.environ)
      let left := handOver jobId opts pipes ans.nonblock
      ⟨left.result.map fun drain => (ans.pid, drain),
        made.ops ++ [.started ans.pid program] ++ left.ops⟩

/-- `spawn_fork_internal`, in the parent. -/
def spawnForkInternal (jobId : JobId) (opts : SpawnOptions) (ans : SpawnAnswers) :
    Spawned (Except SysError (Int32 × DrainState)) :=
  let made := Pipes.new opts.stdin opts.captureStdout opts.captureStderr ans.pipe
  match made.result with
  | .error e => ⟨.error e, made.ops⟩
  | .ok pipes =>
    match syscallRet ans.fork "fork" with
    | .error e => ⟨.error e, made.ops ++ pipes.closeAll⟩
    | .ok () =>
      let program : ChildProgram := .forked (childSteps opts pipes) (opts.ctx.image ans.environ)
      let left := handOver jobId opts pipes ans.nonblock
      ⟨left.result.map fun drain => (ans.pid, drain),
        made.ops ++ [.started ans.pid program] ++ left.ops⟩

/-- What `spawn_start` returns. -/
structure RunningProcess where
  process : Process
  drain : DrainState

/-- `spawn_start`. -/
def spawnStart (jobId : JobId) (opts : SpawnOptions) (ans : SpawnAnswers) :
    Spawned (Except SysError RunningProcess) :=
  let started := match resolveBackend ans.selected opts with
    | .posixSpawn => spawnPosixInternal jobId opts ans
    | .fork => spawnForkInternal jobId opts ans
  ⟨started.result.map fun r => ⟨⟨r.1⟩, r.2⟩, started.ops⟩

end CoreShift
