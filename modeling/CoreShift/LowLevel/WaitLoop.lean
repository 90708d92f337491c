import CoreShift.LowLevel.Spawn

/-!
# Waiting for a child

`wait_loop` and `spawn` of `low_level/spawn`. A turn of the loop finds out one reading of the
clock, and the outcomes of the calls it makes; the loop takes the turns from a list, and has not
returned when the list runs out. The epoll descriptor itself is left out: `Reactor::new` opens
it first and it is dropped last.
-/

namespace CoreShift

open Utils

structure Output where
  pid : Int32
  status : Option ExitStatus
  stdout : Bytes
  stderr : Bytes
  timedOut : Bool
deriving DecidableEq, Repr

inductive KillState
  | none
  | termSent
  | killSent
deriving DecidableEq, Repr

/-- An event of the reactor, and what the descriptor answers if it is read or written. -/
structure PollEvent where
  event : ReactorEvent
  reads : List ReadAnswer
  writes : List WriteAnswer

/-- What a turn of the loop finds out, where it asks. -/
structure Turn where
  now : Instant
  -- the `errno` of a signal that is sent
  kill : Option Int32
  wait : List WaitAnswer
  blocking : List (Except Int32 Int32)
  epoll : Except Int32 (List PollEvent)

/-- The parameters of the loop. -/
structure WaitArgs where
  process : Process
  deadline : Option Instant
  killGraceMs : UInt32
  cancel : CancelPolicy
  pgroup : ProcessGroup

/-- The variables of the loop, and what it has done. -/
structure WaitState where
  drain : DrainState
  status : Option ExitStatus
  kill : KillState
  timedOut : Bool
  ops : List SpawnOp

inductive Verdict
  | again
  -- in `waitpid`, which has not returned
  | blocked
  | returned (result : Except SysError Output)

/-- The result of a call that has returned. -/
def Verdict.result : Verdict → Option (Except SysError Output)
  | .returned result => some result
  | _ => none

namespace WaitState

def did (s : WaitState) (ops : List SpawnOp) : WaitState := { s with ops := s.ops ++ ops }

/-- An early return: the drain goes out of scope, and with it the descriptors in its slots. -/
def abandon (s : WaitState) : WaitState :=
  let slots := s.drain.stdoutSlot.toList ++ s.drain.stderrSlot.toList ++ s.drain.stdinSlot.toList
  { s.did (slots.map fun slot => .closed slot.fd) with drain := s.drain.takeAllSlots.2 }

end WaitState

namespace WaitLoop

/-! ## The deadline -/

/-- Signals go to the group of the child if it has one. -/
def targetIsGroup (a : WaitArgs) : Bool := a.pgroup.isolated || a.pgroup.leader.isSome

def signalOp (a : WaitArgs) (signal : Int32) : SpawnOp :=
  .signalled (a.process.target (targetIsGroup a)) signal

/-- Whether `kill` or `kill_pgroup` returns an error. -/
def killFails (a : WaitArgs) (errno : Option Int32) : Bool :=
  match killRet errno (if targetIsGroup a then "kill_pgroup" else "kill") with
  | .error _ => true
  | .ok () => false

/-- The escalation, once the deadline is passed by `elapsedOver` milliseconds. -/
def escalate (a : WaitArgs) (s : WaitState) (elapsedOver : ℕ) (errno : Option Int32) :
    WaitState :=
  match s.kill with
  | .none =>
    match a.cancel with
    | .graceful =>
      { s.did [signalOp a SIGTERM] with
        kill := if killFails a errno then .killSent else .termSent }
    | .kill => { s.did [signalOp a SIGKILL] with kill := .killSent }
    | .none => s
  | .termSent =>
    if elapsedOver > a.killGraceMs.toNat then
      { s.did [signalOp a SIGKILL] with kill := .killSent }
    else s
  | .killSent => s

/-- The head of a turn: the timeout for the poll, which is a tenth of a second while a signal
takes effect. -/
def checkDeadline (a : WaitArgs) (s : WaitState) (now : Instant) (errno : Option Int32) :
    WaitState × Int32 :=
  match a.deadline with
  | none => (s, -1)
  | some dl =>
    if now ≥ dl then (escalate a { s with timedOut := true } ((now - dl) / 1000000) errno, 100)
    else (s, Int32.ofNat (min ((dl - now) / 1000000) 2147483647))

/-! ## The events -/

/-- Whether a slot is the one of a token. -/
def owns (slot : Option FdSlot) (token : Token) : Bool := slot.any fun s => s.token = token

/-- A slot is given up after a hang-up or an error: its registration is removed, and its
descriptor is dropped. -/
def hangUpOps (slot : Option FdSlot) : List SpawnOp :=
  slot.toList.flatMap fun s => [.unwatched s.fd, .closed s.fd]

/-- `read_fd`; a slot that it gives back is dropped. -/
def readStream (s : WaitState) (isStdout : Bool) (reads : List ReadAnswer) :
    WaitState × Except SysError Unit :=
  let r := s.drain.readFd isStdout reads
  let s := { s with drain := r.1 }
  match r.2 with
  | .error e => (s, .error e)
  | .ok slot => (s.did (slot.toList.map fun slot => .closed slot.fd), .ok ())

/-- `write_stdin`; a slot that it gives back is dropped. -/
def writeStream (s : WaitState) (writes : List WriteAnswer) : WaitState :=
  let before := s.drain.writer
  let r := s.drain.writeStdin writes
  let taken := ((before.buf.getD []).drop before.off).take (r.1.writer.off - before.off)
  let s := s.did (s.drain.stdinSlot.toList.map fun slot => .wrote slot.fd taken)
  let s := { s with drain := r.1 }
  s.did (r.2.toList.map fun slot => .closed slot.fd)

def handleEvent (s : WaitState) (ev : PollEvent) : WaitState × Except SysError Unit :=
  let fdToken := ev.event.token
  if ev.event.error then
    if owns s.drain.stdoutSlot fdToken then
      ({ s.did (hangUpOps s.drain.stdoutSlot) with
          drain := { s.drain with stdoutSlot := none } }, .ok ())
    else if owns s.drain.stderrSlot fdToken then
      ({ s.did (hangUpOps s.drain.stderrSlot) with
          drain := { s.drain with stderrSlot := none } }, .ok ())
    else if owns s.drain.stdinSlot fdToken then
      ({ s.did (hangUpOps s.drain.stdinSlot) with
          drain := { s.drain with
            stdinSlot := none
            writer := { s.drain.writer with buf := none } } }, .ok ())
    else (s, .ok ())
  else if owns s.drain.stdoutSlot fdToken && ev.event.readable then readStream s true ev.reads
  else if owns s.drain.stderrSlot fdToken && ev.event.readable then readStream s false ev.reads
  else if owns s.drain.stdinSlot fdToken && ev.event.writable then
    (writeStream s ev.writes, .ok ())
  else (s, .ok ())

def handleEvents (s : WaitState) : List PollEvent → WaitState × Except SysError Unit
  | [] => (s, .ok ())
  | ev :: evs =>
    match handleEvent s ev with
    | (s, .error e) => (s, .error e)
    | (s, .ok ()) => handleEvents s evs

/-! ## The loop -/

/-- Whether one of the tries of a `wait_blocking` took the child's status away. -/
def reapsBlocking : List (Except Int32 Int32) → Bool
  | [] => false
  | .ok _ :: _ => true
  | .error code :: answers => if code = EINTR then reapsBlocking answers else false

def reapedOps (p : Process) (reaps : Bool) : List SpawnOp := if reaps then [.reaped p.pid] else []

/-- All slots are gone: the loop waits for the child, if it has not found it dead yet. -/
def finish (a : WaitArgs) (s : WaitState) (blocking : List (Except Int32 Int32)) :
    WaitState × Verdict :=
  let waited : Option (Except SysError ExitStatus) := match s.status with
    | some status => some (.ok status)
    | none => a.process.waitBlocking blocking
  let s := s.did (reapedOps a.process (s.status.isNone && reapsBlocking blocking))
  match waited with
  | none => (s, .blocked)
  | some (.error e) => (s.abandon, .returned (.error e))
  | some (.ok status) =>
    let taken := s.drain.takeAllSlots
    let parts := taken.2.intoParts
    ({ s.did (taken.1.flatMap fun slot : FdSlot => [.unwatched slot.fd, .closed slot.fd]) with
        drain := taken.2 },
      .returned (.ok ⟨a.process.pid, some status, parts.1, parts.2, s.timedOut⟩))

/-- The rest of a turn: the loop sleeps until something is ready, a millisecond at most once
the child is dead, and sees to what is ready. -/
def poll (s : WaitState) (pollTimeout : Int32) (epoll : Except Int32 (List PollEvent)) :
    WaitState × Verdict :=
  let timeout :=
    if s.status.isSome then (if pollTimeout = -1 ∨ pollTimeout > 1 then 1 else pollTimeout)
    else pollTimeout
  let s := s.did [.polled timeout]
  match Reactor.wait epoll with
  | .error e => (s.abandon, .returned (.error e))
  | .ok events =>
    match handleEvents s events with
    | (s, .error e) => (s.abandon, .returned (.error e))
    | (s, .ok ()) => (s, .again)

/-- `wait_step`, unless the status is known. -/
def step (a : WaitArgs) (s : WaitState) (wait : List WaitAnswer) :
    WaitState × Except SysError Unit :=
  match s.status with
  | some _ => (s, .ok ())
  | none =>
    match a.process.waitStep wait with
    | .error e => (s, .error e)
    | .ok status =>
      ({ s.did (reapedOps a.process (reapsChild wait)) with status := status }, .ok ())

/-- One turn of the loop. -/
def turn (a : WaitArgs) (s : WaitState) (t : Turn) : WaitState × Verdict :=
  let (s, pollTimeout) := checkDeadline a s t.now t.kill
  match step a s t.wait with
  | (s, .error e) => (s.abandon, .returned (.error e))
  | (s, .ok ()) =>
    if s.drain.isDone then finish a s t.blocking else poll s pollTimeout t.epoll

def turns (a : WaitArgs) (s : WaitState) : List Turn → WaitState × Verdict
  | [] => (s, .again)
  | t :: ts =>
    match turn a s t with
    | (s, .again) => turns a s ts
    | r => r

end WaitLoop

/-- `wait_loop`. The child is looked for once before the first turn. -/
def waitLoop (a : WaitArgs) (drain : DrainState) (wait : List WaitAnswer) (ts : List Turn) :
    WaitState × Verdict :=
  match WaitLoop.step a ⟨drain, none, .none, false, []⟩ wait with
  | (s, .error e) => (s.abandon, .returned (.error e))
  | (s, .ok ()) => WaitLoop.turns a s ts

/-! ## Spawning and waiting -/

/-- The outcomes of the calls of `spawn`. -/
structure SpawnRun where
  -- the `errno` of a failed `epoll_create1`
  epollCreate : Option Int32
  start : SpawnAnswers
  -- the `errno` of a descriptor that cannot be registered
  epollAdd : RawFd → Option Int32
  wait : List WaitAnswer
  -- the reading of the clock that the deadline is counted from
  now : Instant
  turns : List Turn

/-- The slots are registered and their descriptors forgotten. At the first failure that slot
and the rest are dropped. -/
def watchSlots (epollAdd : RawFd → Option Int32) : List FdSlot → Spawned (Except SysError Unit)
  | [] => ⟨.ok (), []⟩
  | slot :: slots =>
    match syscallRet (epollAdd slot.fd) "epoll_ctl_add" with
    | .error e => ⟨.error e, droppedOps (slot.fd :: slots.map FdSlot.fd)⟩
    | .ok () =>
      let rest := watchSlots epollAdd slots
      ⟨rest.result, .watched slot.fd slot.token :: .forgotten slot.fd :: rest.ops⟩

/-- The parameters that `spawn` gives to its loop. -/
def SpawnOptions.waitArgs (opts : SpawnOptions) (process : Process) (now : Instant) : WaitArgs :=
  { process := process
    deadline := opts.timeoutMs.map fun t => now + durationFromMillis t.toNat
    killGraceMs := opts.killGraceMs
    cancel := opts.cancel
    pgroup := opts.pgroup }

/-- `spawn`. The result is missing while the call has not returned. -/
def spawn (opts : SpawnOptions) (k : SpawnRun) : Spawned (Option (Except SysError Output)) :=
  match syscallRet k.epollCreate "epoll_create1" with
  | .error e => ⟨some (.error e), []⟩
  | .ok () =>
    let running := spawnStart 0 opts k.start
    match running.result with
    | .error e => ⟨some (.error e), running.ops⟩
    | .ok r =>
      let taken := r.drain.takeAllSlots
      let watched := watchSlots k.epollAdd taken.1
      match watched.result with
      | .error e => ⟨some (.error e), running.ops ++ watched.ops⟩
      | .ok () =>
        if opts.wait then
          let waited := waitLoop (opts.waitArgs r.process k.now) taken.2 k.wait k.turns
          ⟨waited.2.result, running.ops ++ watched.ops ++ waited.1.ops⟩
        else
          let parts := taken.2.intoParts
          ⟨some (.ok ⟨r.process.pid, none, parts.1, parts.2, false⟩),
            running.ops ++ watched.ops⟩

end CoreShift
