import CoreShift.LowLevel.WaitLoop

/-!
# What a start does

One equation says what `spawn_start` does, whichever backend it takes: make the pipes, launch
the child, and hand the parent's ends over to a drain. Beside it stand the ledger of the pipe
ends, and when each of the three succeeds.
-/

namespace CoreShift

open Utils

/-! ## Reading the operations -/

namespace SpawnOp

/-- The ends of a pipe that was made. -/
def pipedFds : SpawnOp → List RawFd
  | .piped ends => ends.both
  | _ => []

def closedFds : SpawnOp → List RawFd
  | .closed fd => [fd]
  | _ => []

def forgottenFds : SpawnOp → List RawFd
  | .forgotten fd => [fd]
  | _ => []

/-- The bytes that the child's input took. -/
def wroteBytes : SpawnOp → Bytes
  | .wrote _ bytes => bytes
  | _ => []

/-- A child that was created, and what it is told to do. -/
def children : SpawnOp → List (Int32 × ChildProgram)
  | .started pid program => [(pid, program)]
  | _ => []

def reapedPids : SpawnOp → List Int32
  | .reaped pid => [pid]
  | _ => []

end SpawnOp

/-- Nothing was forgotten, reaped or fed yet. -/
def Starting (ops : List SpawnOp) : Prop :=
  ops.flatMap SpawnOp.forgottenFds = [] ∧ ops.flatMap SpawnOp.reapedPids = [] ∧
    ops.flatMap SpawnOp.wroteBytes = []

/-- The ends of the pipes that were made are closed, forgotten or owned, each as often as it
was made. -/
def Balanced (ops : List SpawnOp) (owned : List RawFd) : Prop :=
  ∀ fd, (ops.flatMap SpawnOp.pipedFds).count fd =
    (ops.flatMap SpawnOp.closedFds).count fd + (ops.flatMap SpawnOp.forgottenFds).count fd +
      owned.count fd

/-! ## Dropped descriptors and new pipes -/

@[simp] theorem droppedOps_closedFds (fds : List RawFd) :
    (droppedOps fds).flatMap SpawnOp.closedFds = fds := by
  induction fds with
  | nil => rfl
  | cons fd fds ih =>
    show fd :: (droppedOps fds).flatMap SpawnOp.closedFds = _
    rw [ih]

@[simp] theorem pipedOps_pipedFds (p : Option PipeEnds) :
    (pipedOps p).flatMap SpawnOp.pipedFds = bothEnds p := by
  cases p <;> rfl

/-- Reading drops for anything but closed descriptors gives nothing. -/
theorem droppedOps_flatMap {α : Type} {f : SpawnOp → List α} (hf : ∀ fd, f (.closed fd) = [])
    (fds : List RawFd) : (droppedOps fds).flatMap f = [] := by
  unfold droppedOps
  rw [List.flatMap_map]
  simp [hf]

/-- Reading new pipes for anything but their ends gives nothing. -/
theorem pipedOps_flatMap {α : Type} {f : SpawnOp → List α} (hf : ∀ ends, f (.piped ends) = [])
    (p : Option PipeEnds) : (pipedOps p).flatMap f = [] := by
  unfold pipedOps
  rw [List.flatMap_map]
  simp [hf]

@[simp] theorem droppedOps_pipedFds (fds : List RawFd) :
    (droppedOps fds).flatMap SpawnOp.pipedFds = [] := droppedOps_flatMap (fun _ => rfl) fds

@[simp] theorem droppedOps_forgottenFds (fds : List RawFd) :
    (droppedOps fds).flatMap SpawnOp.forgottenFds = [] := droppedOps_flatMap (fun _ => rfl) fds

@[simp] theorem droppedOps_children (fds : List RawFd) :
    (droppedOps fds).flatMap SpawnOp.children = [] := droppedOps_flatMap (fun _ => rfl) fds

@[simp] theorem droppedOps_reapedPids (fds : List RawFd) :
    (droppedOps fds).flatMap SpawnOp.reapedPids = [] := droppedOps_flatMap (fun _ => rfl) fds

@[simp] theorem droppedOps_wroteBytes (fds : List RawFd) :
    (droppedOps fds).flatMap SpawnOp.wroteBytes = [] := droppedOps_flatMap (fun _ => rfl) fds

@[simp] theorem pipedOps_closedFds (p : Option PipeEnds) :
    (pipedOps p).flatMap SpawnOp.closedFds = [] := pipedOps_flatMap (fun _ => rfl) p

@[simp] theorem pipedOps_forgottenFds (p : Option PipeEnds) :
    (pipedOps p).flatMap SpawnOp.forgottenFds = [] := pipedOps_flatMap (fun _ => rfl) p

@[simp] theorem pipedOps_children (p : Option PipeEnds) :
    (pipedOps p).flatMap SpawnOp.children = [] := pipedOps_flatMap (fun _ => rfl) p

@[simp] theorem pipedOps_reapedPids (p : Option PipeEnds) :
    (pipedOps p).flatMap SpawnOp.reapedPids = [] := pipedOps_flatMap (fun _ => rfl) p

@[simp] theorem pipedOps_wroteBytes (p : Option PipeEnds) :
    (pipedOps p).flatMap SpawnOp.wroteBytes = [] := pipedOps_flatMap (fun _ => rfl) p

/-! ## The equation -/

/-- The launch of the child by the backend of the options. -/
def SpawnAnswers.launch (ans : SpawnAnswers) (opts : SpawnOptions) (pipes : Pipes) :
    Except SysError Unit :=
  match resolveBackend ans.selected opts with
  | .posixSpawn =>
    posixCalls ans.posix (posixSteps pipes.stdin.isSome pipes.stdout.isSome pipes.stderr.isSome
      opts.pgroup.leader.isSome)
  | .fork => syscallRet ans.fork "fork"

/-- What that backend tells the child to do. -/
def SpawnAnswers.program (ans : SpawnAnswers) (opts : SpawnOptions) (pipes : Pipes) :
    ChildProgram :=
  match resolveBackend ans.selected opts with
  | .posixSpawn =>
    .posixSpawn (fileActions pipes ans) (spawnAttr opts) (opts.ctx.image ans.environ)
  | .fork => .forked (childSteps opts pipes) (opts.ctx.image ans.environ)

/-- The pipes of the options. -/
def SpawnOptions.makePipes (opts : SpawnOptions) (ans : SpawnAnswers) :
    Spawned (Except SysError Pipes) :=
  Pipes.new opts.stdin opts.captureStdout opts.captureStderr ans.pipe

/-- Both backends launch a child with the image of the context. -/
theorem SpawnAnswers.program_image (ans : SpawnAnswers) (opts : SpawnOptions) (pipes : Pipes) :
    (ans.program opts pipes).image = opts.ctx.image ans.environ := by
  unfold SpawnAnswers.program
  split <;> rfl

section Cases

variable {jobId : JobId} {opts : SpawnOptions} {ans : SpawnAnswers} {pipes : Pipes} {e : SysError}

theorem spawnStart_of_no_pipes (hpipes : (opts.makePipes ans).result = .error e) :
    spawnStart jobId opts ans = ⟨.error e, (opts.makePipes ans).ops⟩ := by
  unfold SpawnOptions.makePipes at hpipes
  unfold spawnStart
  split
  · simp only [spawnPosixInternal, hpipes]
    rfl
  · simp only [spawnForkInternal, hpipes]
    rfl

theorem spawnStart_of_no_launch (hpipes : (opts.makePipes ans).result = .ok pipes)
    (hlaunch : ans.launch opts pipes = .error e) :
    spawnStart jobId opts ans = ⟨.error e, (opts.makePipes ans).ops ++ pipes.closeAll⟩ := by
  unfold SpawnOptions.makePipes at hpipes
  unfold SpawnAnswers.launch at hlaunch
  unfold spawnStart
  cases hbackend : resolveBackend ans.selected opts with
  | posixSpawn =>
    rw [hbackend] at hlaunch
    simp only [spawnPosixInternal, hpipes, hlaunch]
    rfl
  | fork =>
    rw [hbackend] at hlaunch
    simp only [spawnForkInternal, hpipes, hlaunch]
    rfl

theorem spawnStart_of_launch (hpipes : (opts.makePipes ans).result = .ok pipes)
    (hlaunch : ans.launch opts pipes = .ok ()) :
    spawnStart jobId opts ans =
      ⟨(handOver jobId opts pipes ans.nonblock).result.map fun drain => ⟨⟨ans.pid⟩, drain⟩,
        (opts.makePipes ans).ops ++ [.started ans.pid (ans.program opts pipes)] ++
          (handOver jobId opts pipes ans.nonblock).ops⟩ := by
  -- the backend and `spawn_start` each map over the drain
  have hmap : ∀ {α β γ : Type} (f : α → β) (g : β → γ) (x : Except SysError α),
      (x.map f).map g = x.map (g ∘ f) := by
    intro α β γ f g x
    cases x <;> rfl
  unfold SpawnOptions.makePipes at hpipes
  unfold SpawnAnswers.launch at hlaunch
  unfold spawnStart SpawnAnswers.program
  cases hbackend : resolveBackend ans.selected opts with
  | posixSpawn =>
    rw [hbackend] at hlaunch
    simp only [spawnPosixInternal, hpipes, hlaunch, hmap]
    rfl
  | fork =>
    rw [hbackend] at hlaunch
    simp only [spawnForkInternal, hpipes, hlaunch, hmap]
    rfl

end Cases

/-! ## Making the pipes -/

/-- The streams for which a pipe is made, in order. -/
def SpawnOptions.streams (opts : SpawnOptions) : List IoStream :=
  (if opts.stdin.isSome then [.stdin] else []) ++ (if opts.captureStdout then [.stdout] else []) ++
    if opts.captureStderr then [.stderr] else []

theorem pipeIf_ok {wanted : Bool} {answer : Except Int32 PipeEnds} {p : Option PipeEnds}
    (h : pipeIf wanted answer = .ok p) : p.isSome = wanted := by
  unfold pipeIf makePipe at h
  cases wanted with
  | true =>
    cases answer with
    | ok ends =>
      cases h
      rfl
    | error code => cases h
  | false =>
    cases h
    rfl

theorem pipeIf_fails {wanted : Bool} {answer : Except Int32 PipeEnds} {e : SysError}
    (h : pipeIf wanted answer = .error e) : wanted = true ∧ ∀ ends, answer ≠ .ok ends := by
  unfold pipeIf makePipe at h
  cases wanted with
  | true =>
    refine ⟨rfl, fun ends heq => ?_⟩
    rw [heq] at h
    cases h
  | false => cases h

theorem pipeIf_works {wanted : Bool} {answer : Except Int32 PipeEnds} {p : Option PipeEnds}
    (h : pipeIf wanted answer = .ok p) : wanted = true → ∃ ends, answer = .ok ends := by
  unfold pipeIf makePipe at h
  intro hwanted
  rw [if_pos hwanted] at h
  cases answer with
  | ok ends => exact ⟨ends, rfl⟩
  | error code => cases h

/-- The pipes that are made are the ones that are wanted. -/
theorem SpawnOptions.makePipes_ok {opts : SpawnOptions} {ans : SpawnAnswers} {pipes : Pipes}
    (h : (opts.makePipes ans).result = .ok pipes) :
    pipes.stdin.isSome = opts.stdin.isSome ∧ pipes.stdout.isSome = opts.captureStdout ∧
      pipes.stderr.isSome = opts.captureStderr ∧
      (∀ stream ∈ opts.streams, ∃ ends, ans.pipe stream = .ok ends) ∧
      (opts.makePipes ans).ops =
        pipedOps pipes.stdin ++ pipedOps pipes.stdout ++ pipedOps pipes.stderr := by
  unfold SpawnOptions.makePipes Pipes.new at h ⊢
  split at h
  · cases h
  · next stdin hin =>
    split at h
    · cases h
    · next stdout hout =>
      split at h
      · cases h
      · next stderr herr =>
        cases h
        refine ⟨pipeIf_ok hin, pipeIf_ok hout, pipeIf_ok herr, ?_, rfl⟩
        -- a stream is in the list if its pipe was wanted
        intro stream hs
        cases stream with
        | stdin => exact pipeIf_works hin (by simpa [SpawnOptions.streams] using hs)
        | stdout => exact pipeIf_works hout (by simpa [SpawnOptions.streams] using hs)
        | stderr => exact pipeIf_works herr (by simpa [SpawnOptions.streams] using hs)

/-- Without one of the pipes that are wanted, those that were made are dropped again. -/
theorem SpawnOptions.makePipes_fails {opts : SpawnOptions} {ans : SpawnAnswers} {e : SysError}
    (h : (opts.makePipes ans).result = .error e) :
    Balanced (opts.makePipes ans).ops [] ∧
      Starting (opts.makePipes ans).ops ∧
      (opts.makePipes ans).ops.flatMap SpawnOp.children = [] ∧
      ¬ ∀ stream ∈ opts.streams, ∃ ends, ans.pipe stream = .ok ends := by
  have hwanted : ∀ stream ∈ opts.streams, (∀ ends, ans.pipe stream ≠ .ok ends) →
      ¬ ∀ stream ∈ opts.streams, ∃ ends, ans.pipe stream = .ok ends := by
    intro stream hs hno hall
    have ⟨ends, hends⟩ := hall stream hs
    exact hno ends hends
  unfold SpawnOptions.makePipes Pipes.new at h ⊢
  split at h
  · next e' hin =>
    -- no pipe was made
    have ⟨hw, hno⟩ := pipeIf_fails hin
    have hmem : .stdin ∈ opts.streams := by simp [SpawnOptions.streams, hw]
    exact ⟨fun fd => rfl, ⟨rfl, rfl, rfl⟩, rfl, hwanted .stdin hmem hno⟩
  · next stdin hin =>
    split at h
    · next e' hout =>
      -- the input's pipe was made and is dropped
      have ⟨hw, hno⟩ := pipeIf_fails hout
      refine ⟨fun fd => ?_, by simp [Starting], by simp,
        hwanted .stdout (by simp [SpawnOptions.streams, hw]) hno⟩
      simp [List.count_reverse]
    · next stdout hout =>
      split at h
      · next e' herr =>
        -- both other pipes are dropped, the later one first
        have ⟨hw, hno⟩ := pipeIf_fails herr
        refine ⟨fun fd => ?_, by simp [Starting], by simp,
          hwanted .stderr (by simp [SpawnOptions.streams, hw]) hno⟩
        simp [List.count_reverse]
        omega
      · cases h

/-! ## Launching the child -/

theorem posixCalls_ok_iff (posix : String → Int32) (ops : List String) :
    posixCalls posix ops = .ok () ↔ ∀ op ∈ ops, posix op = 0 := by
  induction ops with
  | nil => simp [posixCalls]
  | cons op ops ih =>
    unfold posixCalls posixRet
    by_cases h : posix op = 0
    · simp [h, ih]
    · simp [h]

/-- Every call of the backend, up to the launch, succeeds. -/
def SpawnAnswers.Launches (ans : SpawnAnswers) (opts : SpawnOptions) : Prop :=
  match resolveBackend ans.selected opts with
  | .posixSpawn =>
    ∀ op ∈ posixSteps opts.stdin.isSome opts.captureStdout opts.captureStderr
      opts.pgroup.leader.isSome, ans.posix op = 0
  | .fork => ans.fork = none

/-- The calls before the child exists, and the one that creates it, succeed. -/
def SpawnAnswers.StartsChild (ans : SpawnAnswers) (opts : SpawnOptions) : Prop :=
  (∀ stream ∈ opts.streams, ∃ ends, ans.pipe stream = .ok ends) ∧ ans.Launches opts

/-- The calls after the child exists succeed. -/
def SpawnAnswers.Unblocks (ans : SpawnAnswers) (opts : SpawnOptions) : Prop :=
  ∀ stream ∈ opts.streams, ans.nonblock stream = .ok ()

theorem SpawnAnswers.launch_ok_iff {ans : SpawnAnswers} {opts : SpawnOptions} {pipes : Pipes}
    (hpipes : (opts.makePipes ans).result = .ok pipes) :
    ans.launch opts pipes = .ok () ↔ ans.Launches opts := by
  have ⟨hin, hout, herr, _⟩ := SpawnOptions.makePipes_ok hpipes
  unfold SpawnAnswers.launch SpawnAnswers.Launches
  rw [hin, hout, herr]
  cases resolveBackend ans.selected opts with
  | posixSpawn => exact posixCalls_ok_iff _ _
  | fork =>
    show syscallRet ans.fork "fork" = .ok () ↔ ans.fork = none
    unfold syscallRet
    cases ans.fork with
    | none => simp
    | some code => simp

/-! ## Handing over the pipes -/

/-- The descriptors in the slots of a drain. -/
def DrainState.slotFds (d : DrainState) : List RawFd := d.takeAllSlots.1.map FdSlot.fd

/-- The drain of a new child: a slot for each pipe, nothing read and nothing written. -/
structure DrainState.Unused (d : DrainState) (opts : SpawnOptions) : Prop where
  stdin : d.stdinSlot.isSome = opts.stdin.isSome
  stdout : d.stdoutSlot.isSome = opts.captureStdout
  stderr : d.stderrSlot.isSome = opts.captureStderr
  buffer : d.buffer = .new opts.maxOutput
  writer : d.writer = .new opts.stdin

theorem FdSlot.new_ok {jobId : JobId} {k : UInt64} {nonblock : Except SysError Unit}
    {fd : Option RawFd} {slot : Option FdSlot} (h : FdSlot.new jobId k nonblock fd = .ok slot) :
    slot.toList.map FdSlot.fd = fd.toList ∧ slot.isSome = fd.isSome ∧
      (fd.isSome = true → nonblock = .ok ()) := by
  unfold FdSlot.new at h
  cases fd with
  | none =>
    cases h
    exact ⟨rfl, rfl, fun hno => by cases hno⟩
  | some fd =>
    cases nonblock with
    | error e => cases h
    | ok u =>
      cases h
      exact ⟨rfl, rfl, fun _ => rfl⟩

theorem FdSlot.new_fails {jobId : JobId} {k : UInt64} {nonblock : Except SysError Unit}
    {fd : Option RawFd} {e : SysError} (h : FdSlot.new jobId k nonblock fd = .error e) :
    fd.isSome = true ∧ nonblock ≠ .ok () := by
  unfold FdSlot.new at h
  cases fd with
  | none => cases h
  | some fd =>
    cases nonblock with
    | error e => exact ⟨rfl, fun hno => by cases hno⟩
    | ok u => cases h

theorem toList_map {α β : Type} (f : α → β) (o : Option α) : (o.map f).toList = o.toList.map f := by
  cases o <;> rfl

section NewDrain

variable {jobId : JobId} {stdinFd stdoutFd stderrFd : Option RawFd} {stdinBuf : Option Bytes}
  {limit : ℕ} {earlyExit : Option (Bytes → Bool)} {nonblock : IoStream → Except SysError Unit}

theorem DrainState.new_ok {d : DrainState} (hbuf : stdinFd.isSome = stdinBuf.isSome)
    (h : DrainState.new jobId stdinFd stdinBuf stdoutFd stderrFd limit earlyExit nonblock =
      .ok d) :
    d.slotFds = stdinFd.toList ++ stdoutFd.toList ++ stderrFd.toList ∧
      (d.stdinSlot.isSome = stdinFd.isSome ∧ d.stdoutSlot.isSome = stdoutFd.isSome ∧
        d.stderrSlot.isSome = stderrFd.isSome) ∧
      ((stdinFd.isSome = true → nonblock .stdin = .ok ()) ∧
        (stdoutFd.isSome = true → nonblock .stdout = .ok ()) ∧
        (stderrFd.isSome = true → nonblock .stderr = .ok ())) ∧
      d.buffer = .new limit ∧ d.writer = .new stdinBuf := by
  have hkept : (if stdinBuf.isSome = true then stdinFd else none) = stdinFd := by
    rw [← hbuf]
    cases stdinFd <;> rfl
  unfold DrainState.new at h
  rw [hkept] at h
  split at h
  · cases h
  · next stdinSlot hstdin =>
    split at h
    · cases h
    · next stdoutSlot hstdout =>
      split at h
      · cases h
      · next stderrSlot hstderr =>
        cases h
        have ⟨hinFd, hinSome, hinOk⟩ := FdSlot.new_ok hstdin
        have ⟨houtFd, houtSome, houtOk⟩ := FdSlot.new_ok hstdout
        have ⟨herrFd, herrSome, herrOk⟩ := FdSlot.new_ok hstderr
        refine ⟨?_, ⟨hinSome, houtSome, herrSome⟩, ⟨hinOk, houtOk, herrOk⟩, rfl, rfl⟩
        unfold DrainState.slotFds DrainState.takeAllSlots
        rw [List.map_append, List.map_append, hinFd, houtFd, herrFd]

theorem DrainState.new_fails {e : SysError} (hbuf : stdinFd.isSome = stdinBuf.isSome)
    (h : DrainState.new jobId stdinFd stdinBuf stdoutFd stderrFd limit earlyExit nonblock =
      .error e) :
    (stdinFd.isSome = true ∧ nonblock .stdin ≠ .ok ()) ∨
      (stdoutFd.isSome = true ∧ nonblock .stdout ≠ .ok ()) ∨
      (stderrFd.isSome = true ∧ nonblock .stderr ≠ .ok ()) := by
  have hkept : (if stdinBuf.isSome = true then stdinFd else none) = stdinFd := by
    rw [← hbuf]
    cases stdinFd <;> rfl
  unfold DrainState.new at h
  rw [hkept] at h
  split at h
  · next e' hstdin => exact Or.inl (FdSlot.new_fails hstdin)
  · split at h
    · next e' hstdout => exact Or.inr (Or.inl (FdSlot.new_fails hstdout))
    · split at h
      · next e' hstderr => exact Or.inr (Or.inr (FdSlot.new_fails hstderr))
      · cases h

end NewDrain

section HandOver

variable {jobId : JobId} {opts : SpawnOptions} {ans : SpawnAnswers} {pipes : Pipes}

/-- The parent's ends, in the order of the slots. -/
def Pipes.parentEnds (p : Pipes) : List RawFd :=
  p.stdin.toList.map PipeEnds.w ++ p.stdout.toList.map PipeEnds.r ++ p.stderr.toList.map PipeEnds.r

theorem bothEnds_count (p : Option PipeEnds) (fd : RawFd) :
    (bothEnds p).count fd =
      (p.toList.map PipeEnds.r).count fd + (p.toList.map PipeEnds.w).count fd := by
  cases p with
  | none => rfl
  | some ends =>
    show [ends.r, ends.w].count fd = [ends.r].count fd + [ends.w].count fd
    rw [← List.count_append]
    rfl

/-- Every end is the child's or the parent's. -/
theorem Pipes.count_ends (p : Pipes) (fd : RawFd) :
    p.fds.count fd = p.childEnds.count fd + p.parentEnds.count fd := by
  unfold Pipes.fds Pipes.childEnds Pipes.parentEnds
  simp only [List.count_append, bothEnds_count]
  omega

/-- What is done about a stream depends on whether its pipe was made. -/
theorem SpawnAnswers.unblocks_iff (hpipes : (opts.makePipes ans).result = .ok pipes) :
    ans.Unblocks opts ↔
      (pipes.stdin.isSome = true → ans.nonblock .stdin = .ok ()) ∧
      (pipes.stdout.isSome = true → ans.nonblock .stdout = .ok ()) ∧
      (pipes.stderr.isSome = true → ans.nonblock .stderr = .ok ()) := by
  have ⟨hin, hout, herr, _⟩ := SpawnOptions.makePipes_ok hpipes
  unfold SpawnAnswers.Unblocks SpawnOptions.streams
  rw [hin, hout, herr]
  cases opts.stdin.isSome <;> cases opts.captureStdout <;> cases opts.captureStderr <;> simp

/-- Once the pipes are made, an input pipe is there exactly if there is a buffer for it. -/
theorem stdin_kept (hin : pipes.stdin.isSome = opts.stdin.isSome) :
    (if opts.stdin.isSome = true then pipes.stdin.map PipeEnds.w else none) =
        pipes.stdin.map PipeEnds.w ∧
      (if opts.stdin.isSome = true then [] else (pipes.stdin.map PipeEnds.w).toList) = [] := by
  rw [← hin]
  cases pipes.stdin with
  | none => exact ⟨rfl, rfl⟩
  | some ends => exact ⟨rfl, rfl⟩

theorem handOver_ok {drain : DrainState} (hpipes : (opts.makePipes ans).result = .ok pipes)
    (h : (handOver jobId opts pipes ans.nonblock).result = .ok drain) :
    (handOver jobId opts pipes ans.nonblock).ops = droppedOps pipes.childEnds ∧
      drain.slotFds = pipes.parentEnds ∧ drain.Unused opts ∧ ans.Unblocks opts := by
  have ⟨hin, hout, herr, _⟩ := SpawnOptions.makePipes_ok hpipes
  have ⟨hkept, hrest⟩ := stdin_kept hin
  unfold handOver at h ⊢
  simp only [hkept, hrest, List.append_nil] at h ⊢
  split at h
  · next drain' hnew =>
    cases h
    have ⟨hfds, ⟨hin', hout', herr'⟩, hnb, hbuffer, hwriter⟩ :=
      DrainState.new_ok (by rw [Option.isSome_map, hin]) hnew
    simp only [Option.isSome_map, toList_map] at hfds hin' hout' herr' hnb
    exact ⟨rfl, hfds,
      ⟨hin'.trans hin, hout'.trans hout, herr'.trans herr, hbuffer, hwriter⟩,
      (SpawnAnswers.unblocks_iff hpipes).mpr hnb⟩
  · cases h

theorem handOver_fails {e : SysError} (hpipes : (opts.makePipes ans).result = .ok pipes)
    (h : (handOver jobId opts pipes ans.nonblock).result = .error e) :
    (∃ fds : List RawFd, (handOver jobId opts pipes ans.nonblock).ops = droppedOps fds ∧
      ∀ fd, fds.count fd = pipes.fds.count fd) ∧ ¬ ans.Unblocks opts := by
  have ⟨hin, _, _, _⟩ := SpawnOptions.makePipes_ok hpipes
  have ⟨hkept, _⟩ := stdin_kept hin
  unfold handOver at h ⊢
  simp only [hkept] at h ⊢
  split at h
  · cases h
  · next e' hnew =>
    constructor
    · -- the ends are dropped in another order than they were made
      refine ⟨_, rfl, fun fd => ?_⟩
      rw [Pipes.count_ends]
      unfold Pipes.parentEnds
      simp only [toList_map, List.count_append]
      omega
    · intro hnb
      have ⟨hin', hout', herr'⟩ := (SpawnAnswers.unblocks_iff hpipes).mp hnb
      have hfail := DrainState.new_fails (by rw [Option.isSome_map, hin]) hnew
      simp only [Option.isSome_map] at hfail
      rcases hfail with ⟨hsome, hno⟩ | ⟨hsome, hno⟩ | ⟨hsome, hno⟩
      · exact hno (hin' hsome)
      · exact hno (hout' hsome)
      · exact hno (herr' hsome)

end HandOver

/-! ## The outcomes of a start -/

/-- How `spawn_start` ends: without a child; with a child that was created but is not returned;
or with a child that runs. -/
inductive StartOutcome (opts : SpawnOptions) (ans : SpawnAnswers) :
    Spawned (Except SysError RunningProcess) → Prop
  | refused {ops e} : ¬ ans.StartsChild opts → Starting ops → Balanced ops [] →
      ops.flatMap SpawnOp.children = [] → StartOutcome opts ans ⟨.error e, ops⟩
  | lost {ops e program} : ans.StartsChild opts → ¬ ans.Unblocks opts → Starting ops →
      Balanced ops [] → ops.flatMap SpawnOp.children = [(ans.pid, program)] →
      StartOutcome opts ans ⟨.error e, ops⟩
  | running {ops drain program} : ans.StartsChild opts → ans.Unblocks opts → Starting ops →
      Balanced ops drain.slotFds → ops.flatMap SpawnOp.children = [(ans.pid, program)] →
      program.image = opts.ctx.image ans.environ → drain.Unused opts →
      StartOutcome opts ans ⟨.ok ⟨⟨ans.pid⟩, drain⟩, ops⟩

theorem spawnStart_outcome (jobId : JobId) (opts : SpawnOptions) (ans : SpawnAnswers) :
    StartOutcome opts ans (spawnStart jobId opts ans) := by
  cases hpipes : (opts.makePipes ans).result with
  | error e =>
    have ⟨hbalanced, hstarting, hchildren, hno⟩ := SpawnOptions.makePipes_fails hpipes
    rw [spawnStart_of_no_pipes hpipes]
    exact .refused (fun hstarts => hno hstarts.1) hstarting hbalanced hchildren
  | ok pipes =>
    -- from here on there is something to give back
    have ⟨hin, hout, herr, hpiped, hops⟩ := SpawnOptions.makePipes_ok hpipes
    have hlaunches := SpawnAnswers.launch_ok_iff hpipes
    cases hlaunch : ans.launch opts pipes with
    | error e =>
      have hno : ¬ ans.Launches opts := by
        intro hyes
        rw [← hlaunches, hlaunch] at hyes
        cases hyes
      rw [spawnStart_of_no_launch hpipes hlaunch, hops]
      refine .refused (fun hstarts => hno hstarts.2) ?_ ?_ ?_
      · simp [Starting, Pipes.closeAll]
      · intro fd
        simp [Pipes.closeAll, Pipes.fds]
      · simp [Pipes.closeAll]
    | ok u =>
      have hstarts : ans.StartsChild opts := ⟨hpiped, hlaunches.mp hlaunch⟩
      rw [spawnStart_of_launch hpipes hlaunch, hops]
      cases hleft : (handOver jobId opts pipes ans.nonblock).result with
      | error e =>
        -- the pipes are given back, the child is not
        have ⟨⟨fds, hdropped, hcount⟩, hno⟩ := handOver_fails hpipes hleft
        rw [hdropped]
        refine @StartOutcome.lost _ _ _ _ (ans.program opts pipes) hstarts hno ?_ ?_ ?_
        · simp [Starting, SpawnOp.forgottenFds, SpawnOp.reapedPids, SpawnOp.wroteBytes]
        · intro fd
          simp [SpawnOp.pipedFds, SpawnOp.closedFds, SpawnOp.forgottenFds, hcount, Pipes.fds]
        · simp [SpawnOp.children]
      | ok drain =>
        have ⟨hdropped, hslots, hunused, hyes⟩ := handOver_ok hpipes hleft
        rw [hdropped]
        refine .running hstarts hyes ?_ ?_ ?_ (ans.program_image opts pipes) hunused
        · simp [Starting, SpawnOp.forgottenFds, SpawnOp.reapedPids, SpawnOp.wroteBytes]
        · intro fd
          have hends := pipes.count_ends fd
          rw [hslots]
          simp [SpawnOp.pipedFds, SpawnOp.closedFds, SpawnOp.forgottenFds] at hends ⊢
          simp [Pipes.fds] at hends
          omega
        · simp [SpawnOp.children]

/-! ## Answers for small runs -/

/-- Every call succeeds, and the child has the pid 100. -/
def SpawnAnswers.smooth : SpawnAnswers where
  selected := .posixSpawn
  environ := [none]
  pipe
    | .stdin => .ok ⟨5, 6, by decide, by decide⟩
    | .stdout => .ok ⟨7, 8, by decide, by decide⟩
    | .stderr => .ok ⟨9, 10, by decide, by decide⟩
  posix _ := 0
  directory := none
  addsClose _ := true
  fork := none
  pid := 100
  nonblock _ := .ok ()

/-- A program without arguments, whose output is captured or not and waited for or not. -/
def SpawnOptions.plain (capture wait : Bool) : SpawnOptions where
  ctx := .new ["/bin/true"] none none
  stdin := none
  captureStdout := capture
  captureStderr := false
  wait := wait
  pgroup := .default
  maxOutput := 1024
  timeoutMs := none
  killGraceMs := 1000
  cancel := .none
  backend := .posixSpawn
  earlyExit := none

/-- Every call succeeds, and the child is found to have exited. -/
def SpawnRun.smooth : SpawnRun where
  epollCreate := none
  start := .smooth
  epollAdd _ := none
  wait := [.reaped 0]
  now := 0
  turns := [⟨0, none, [], [], .ok []⟩]

end CoreShift
