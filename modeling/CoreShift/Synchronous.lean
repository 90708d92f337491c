import CoreShift.Conservation

/-!
# What a synchronous spawn returns

`spawn` takes all slots out of the drain before it waits. The loop then finds nothing left to
drain and returns in its first turn: nothing is ever read from the child's output or written to
its input. So the output that is returned is right only for a child that had nothing to say.
-/

namespace CoreShift

open Utils

/-- A child: what it writes to its captured streams, its raw exit status, and whether it closes
its end of the input before it has read everything. -/
structure Child where
  stdout : Bytes
  stderr : Bytes
  status : Int32
  closesStdin : Bool

/-! ## A kernel that reports the child's status -/

/-- The child is the caller's own, and its status is taken away by this call only. -/
def WaitAnswer.Reports (status : Int32) : WaitAnswer → Prop
  | .running => True
  | .reaped raw => raw = status
  | .fail code => code ≠ ECHILD

def BlockingReports (status : Int32) : Except Int32 Int32 → Prop
  | .ok raw => raw = status
  | .error code => code ≠ ECHILD

/-- What `waitpid` answers is about this child. Nothing is assumed of the pipes, which may
deliver what the child wrote in any pieces. -/
structure SpawnRun.Reports (k : SpawnRun) (child : Child) : Prop where
  first : ∀ ans ∈ k.wait, ans.Reports child.status
  step : ∀ t ∈ k.turns, ∀ ans ∈ t.wait, ans.Reports child.status
  blocking : ∀ t ∈ k.turns, ∀ ans ∈ t.blocking, BlockingReports child.status ans

section Status

variable {p : Process} {status : Int32} {st : ExitStatus}

theorem waitStep_reports {answers : List WaitAnswer} (h : ∀ ans ∈ answers, ans.Reports status)
    (hst : p.waitStep answers = .ok (some st)) : st = decodeStatus status := by
  induction answers with
  | nil => cases hst
  | cons ans answers ih =>
    have ⟨hans, hrest⟩ := List.forall_mem_cons.mp h
    cases ans with
    | running => cases hst
    | reaped raw =>
      cases hst
      exact congrArg decodeStatus hans
    | fail code =>
      unfold Process.waitStep at hst
      split at hst
      · exact ih hrest hst
      · rw [if_neg (show code ≠ ECHILD from hans)] at hst
        cases hst

theorem waitBlocking_reports {answers : List (Except Int32 Int32)}
    (h : ∀ ans ∈ answers, BlockingReports status ans)
    (hst : p.waitBlocking answers = some (.ok st)) : st = decodeStatus status := by
  induction answers with
  | nil => cases hst
  | cons ans answers ih =>
    have ⟨hans, hrest⟩ := List.forall_mem_cons.mp h
    cases ans with
    | ok raw =>
      cases hst
      exact congrArg decodeStatus hans
    | error code =>
      unfold Process.waitBlocking at hst
      split at hst
      · exact ih hrest hst
      · rw [if_neg (show code ≠ ECHILD from hans)] at hst
        cases hst

/-- The status that the loop comes to is the child's. -/
theorem awaitStatus_reports {k : SpawnRun} {child : Child} (h : k.Reports child)
    (hst : awaitStatus p k.wait k.turns = some (.ok st)) : st = decodeStatus child.status := by
  unfold awaitStatus at hst
  cases hfirst : p.waitStep k.wait with
  | error e =>
    rw [hfirst] at hst
    cases hst
  | ok found =>
    rw [hfirst] at hst
    cases hturns : k.turns with
    | nil =>
      rw [hturns] at hst
      cases hst
    | cons t ts =>
      have ht : t ∈ k.turns := hturns ▸ List.mem_cons_self
      rw [hturns] at hst
      change turnStatus p found t = _ at hst
      unfold turnStatus at hst
      cases found with
      | some st' =>
        cases hst
        exact waitStep_reports h.first hfirst
      | none =>
        dsimp only at hst
        cases hstep : p.waitStep t.wait with
        | error e =>
          rw [hstep] at hst
          cases hst
        | ok found =>
          rw [hstep] at hst
          cases found with
          | some st' =>
            cases hst
            exact waitStep_reports (h.step t ht) hstep
          | none => exact waitBlocking_reports (h.blocking t ht) hst

end Status

/-! ## The output -/

/-- What a synchronous spawn is for: the captured streams up to the limit, the child's status,
and an input that the child was offered to the end. -/
structure ReturnsOutput (opts : SpawnOptions) (child : Child) (ops : List SpawnOp)
    (output : Output) : Prop where
  stdout : opts.captureStdout = true → output.stdout = child.stdout.take opts.maxOutput
  stderr : opts.captureStderr = true → output.stderr = child.stderr.take opts.maxOutput
  status : output.status = some (decodeStatus child.status)
  stdin : ∀ buf, opts.stdin = some buf →
    child.closesStdin = true ∨ ops.flatMap SpawnOp.wroteBytes = buf

/-- An output that is returned after the start is made of the status that the loop came to. -/
theorem afterStart_returns {opts : SpawnOptions} {k : SpawnRun} {drain : DrainState}
    {output : Output} (hwait : opts.wait = true)
    (hret : (afterStart opts k drain).result = some (.ok output)) :
    ∃ st timedOut, awaitStatus ⟨k.start.pid⟩ k.wait k.turns = some (.ok st) ∧
      output = ⟨k.start.pid, some st, drain.buffer.stdout, drain.buffer.stderr, timedOut⟩ := by
  have hdone : drain.takeAllSlots.2.isDone = true := rfl
  have ⟨⟨timedOut, hresult⟩, _⟩ := WaitLoop.waitLoop_ended
    (a := opts.waitArgs ⟨k.start.pid⟩ k.now) hdone k.wait k.turns
  unfold afterStart at hret
  dsimp only at hret
  cases hwatched : (watchSlots k.epollAdd drain.takeAllSlots.1).result with
  | error e =>
    rw [hwatched] at hret
    cases hret
  | ok u =>
    rw [hwatched] at hret
    dsimp only at hret
    rw [if_pos hwait, hresult] at hret
    have ⟨result, hstatus, hmap⟩ := Option.map_eq_some_iff.mp hret
    cases result with
    | error e => cases hmap
    | ok st =>
      cases hmap
      exact ⟨st, timedOut, hstatus, rfl⟩

/-- Whatever the child does, a synchronous spawn that succeeds returns its status, no output,
and has written nothing to it. -/
theorem spawn_returns_nothing {opts : SpawnOptions} {k : SpawnRun} {child : Child}
    {output : Output} (hwait : opts.wait = true) (h : k.Reports child)
    (hret : (spawn opts k).result = some (.ok output)) :
    output.stdout = [] ∧ output.stderr = [] ∧
      output.status = some (decodeStatus child.status) ∧
      (spawn opts k).ops.flatMap SpawnOp.wroteBytes = [] := by
  cases hepoll : k.epollCreate with
  | some code =>
    rw [spawn_of_no_reactor hepoll] at hret
    cases hret
  | none =>
    have hout := spawnStart_outcome 0 opts k.start
    generalize hstart : spawnStart 0 opts k.start = start at hout
    cases hout with
    | refused =>
      rw [spawn_of_no_start hepoll hstart] at hret
      cases hret
    | lost =>
      rw [spawn_of_no_start hepoll hstart] at hret
      cases hret
    | @running ops drain program _ _ hstarting _ _ _ hunused =>
      rw [spawn_of_start hepoll hstart] at hret ⊢
      have ⟨st, timedOut, hstatus, houtput⟩ := afterStart_returns hwait hret
      have ⟨waits, hops, hwaits, _⟩ := afterStart_ops opts k drain
      have hslots : (watchSlots k.epollAdd drain.takeAllSlots.1).ops.flatMap
          SpawnOp.wroteBytes = [] :=
        watchSlots_flatMap (fun _ => rfl) (fun _ => rfl) (fun _ _ => rfl) _
      -- the drain is as new, but for its slots
      have hbuffer : drain.buffer = .new opts.maxOutput := hunused.buffer
      rw [houtput, hbuffer]
      refine ⟨rfl, rfl, congrArg some (awaitStatus_reports h hstatus), ?_⟩
      rw [List.flatMap_append, hops, List.flatMap_append, hstarting.2.2, hslots,
        flatMap_waits isWait_wroteBytes hwaits]
      rfl

/-- For every child and every synchronous spawn of it that succeeds: the output is what the
child wrote, and its input was offered to it, if and only if a captured stream has nothing to
return and there is no input to offer. -/
theorem spawn_returns_output_iff {opts : SpawnOptions} {k : SpawnRun} {child : Child}
    {output : Output} (hwait : opts.wait = true) (h : k.Reports child)
    (hret : (spawn opts k).result = some (.ok output)) :
    ReturnsOutput opts child (spawn opts k).ops output ↔
      (opts.captureStdout = true → opts.maxOutput = 0 ∨ child.stdout = []) ∧
      (opts.captureStderr = true → opts.maxOutput = 0 ∨ child.stderr = []) ∧
      ∀ buf, opts.stdin = some buf → child.closesStdin = true ∨ buf = [] := by
  have ⟨hstdout, hstderr, hstatus, hwrote⟩ := spawn_returns_nothing hwait h hret
  constructor
  · intro hreturns
    refine ⟨fun hcapture => ?_, fun hcapture => ?_, fun buf hbuf => ?_⟩
    · rw [← List.take_eq_nil_iff, ← hreturns.stdout hcapture, hstdout]
    · rw [← List.take_eq_nil_iff, ← hreturns.stderr hcapture, hstderr]
    · rcases hreturns.stdin buf hbuf with hcloses | hoffered
      · exact Or.inl hcloses
      · rw [← hoffered, hwrote]
        exact Or.inr rfl
  · intro ⟨hout, herr, hin⟩
    refine ⟨fun hcapture => ?_, fun hcapture => ?_, hstatus, fun buf hbuf => ?_⟩
    · rw [hstdout, List.take_eq_nil_iff.mpr (hout hcapture)]
    · rw [hstderr, List.take_eq_nil_iff.mpr (herr hcapture)]
    · rcases hin buf hbuf with hcloses | hempty
      · exact Or.inl hcloses
      · rw [hwrote, hempty]
        exact Or.inr rfl

namespace Child

/-- A child that succeeds without a word, and one that says something. -/
def silent : Child := ⟨[], [], 0, false⟩

def talkative : Child := ⟨[104, 105], [], 0, false⟩

theorem smooth_reports (child : Child) (h : child.status = 0) : SpawnRun.smooth.Reports child := by
  constructor
  · intro ans hans
    rw [List.mem_singleton.mp hans, h]
    rfl
  · intro t ht
    rw [List.mem_singleton.mp ht]
    exact List.forall_mem_nil _
  · intro t ht
    rw [List.mem_singleton.mp ht]
    exact List.forall_mem_nil _

theorem spawn_returns_output_iff_silent :
    ReturnsOutput (.plain true true) silent (spawn (.plain true true) .smooth).ops
      ⟨100, some (.exited 0), [], [], false⟩ :=
  (spawn_returns_output_iff rfl (smooth_reports silent rfl) (by decide)).mpr
    ⟨fun _ => Or.inr rfl, fun _ => Or.inr rfl, fun _ hbuf => by cases hbuf⟩

/-- A child writes two bytes to its captured output and exits; the output comes back empty. -/
theorem output_lost :
    (spawn (.plain true true) .smooth).result =
        some (.ok ⟨100, some (.exited 0), [], [], false⟩) ∧
      SpawnRun.smooth.Reports talkative ∧
      ¬ ReturnsOutput (.plain true true) talkative (spawn (.plain true true) .smooth).ops
        ⟨100, some (.exited 0), [], [], false⟩ := by
  refine ⟨by decide, smooth_reports talkative rfl, ?_⟩
  intro hreturns
  have hstdout : ([] : Bytes) = [104, 105] := hreturns.stdout rfl
  cases hstdout

end Child
end CoreShift
