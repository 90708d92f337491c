import CoreShift.Spawning

/-!
# Waiting with nothing to drain

Without a slot in the drain the loop returns in its first turn, as soon as it has the child's
status; all that it does before is to send a signal and to call `waitpid`. `awaitStatus` is the
status it comes to.
-/

namespace CoreShift

open Utils

/-! ## What the calls to `waitpid` find -/

/-- The first try that is not interrupted fails, and not because there is no such child. -/
def waitFails : List WaitAnswer → Bool
  | .fail code :: answers => if code = EINTR then waitFails answers else code ≠ ECHILD
  | _ => false

/-- No try finds out anything: the child is running. -/
def stillRunning : List WaitAnswer → Bool
  | [] => true
  | .running :: _ => true
  | .reaped _ :: _ => false
  | .fail code :: answers => if code = EINTR then stillRunning answers else false

/-- The same failure while the call blocks. -/
def blockingFails : List (Except Int32 Int32) → Bool
  | .error code :: answers => if code = EINTR then blockingFails answers else code ≠ ECHILD
  | _ => false

namespace Process

variable (p : Process)

theorem waitStep_error_iff (answers : List WaitAnswer) :
    (∃ e, p.waitStep answers = .error e) ↔ waitFails answers = true := by
  induction answers with
  | nil => simp [waitStep, waitFails]
  | cons ans answers ih =>
    cases ans with
    | running => simp [waitStep, waitFails]
    | reaped status => simp [waitStep, waitFails]
    | fail code =>
      -- an interrupted call is made again
      unfold waitStep waitFails
      by_cases hintr : code = EINTR
      · rw [if_pos hintr, if_pos hintr]
        exact ih
      · rw [if_neg hintr, if_neg hintr]
        by_cases hchild : code = ECHILD
        · simp [hchild]
        · simp [hchild]

theorem waitStep_none_iff (answers : List WaitAnswer) :
    p.waitStep answers = .ok none ↔ stillRunning answers = true := by
  induction answers with
  | nil => simp [waitStep, stillRunning]
  | cons ans answers ih =>
    cases ans with
    | running => simp [waitStep, stillRunning]
    | reaped status => simp [waitStep, stillRunning]
    | fail code =>
      unfold waitStep stillRunning
      by_cases hintr : code = EINTR
      · rw [if_pos hintr, if_pos hintr]
        exact ih
      · rw [if_neg hintr, if_neg hintr]
        by_cases hchild : code = ECHILD
        · simp [hchild]
        · simp [hchild]

theorem waitBlocking_error_iff (answers : List (Except Int32 Int32)) :
    (∃ e, p.waitBlocking answers = some (.error e)) ↔ blockingFails answers = true := by
  induction answers with
  | nil => simp [waitBlocking, blockingFails]
  | cons ans answers ih =>
    cases ans with
    | ok status => simp [waitBlocking, blockingFails]
    | error code =>
      unfold waitBlocking blockingFails
      by_cases hintr : code = EINTR
      · rw [if_pos hintr, if_pos hintr]
        exact ih
      · rw [if_neg hintr, if_neg hintr]
        by_cases hchild : code = ECHILD
        · simp [hchild]
        · simp [hchild]

end Process

/-- A call that finds the child running, or fails, takes no status away. -/
theorem reapsChild_eq_false {answers : List WaitAnswer}
    (h : stillRunning answers = true ∨ waitFails answers = true) : reapsChild answers = false := by
  induction answers with
  | nil => rfl
  | cons ans answers ih =>
    cases ans with
    | running => rfl
    | reaped status => simp [stillRunning, waitFails] at h
    | fail code =>
      unfold stillRunning waitFails at h
      unfold reapsChild
      by_cases hintr : code = EINTR
      · rw [if_pos hintr, if_pos hintr] at h
        rw [if_pos hintr]
        exact ih h
      · rw [if_neg hintr]

theorem reapsBlocking_eq_false {answers : List (Except Int32 Int32)}
    (h : blockingFails answers = true) : WaitLoop.reapsBlocking answers = false := by
  induction answers with
  | nil => rfl
  | cons ans answers ih =>
    cases ans with
    | ok status => simp [blockingFails] at h
    | error code =>
      unfold blockingFails at h
      unfold WaitLoop.reapsBlocking
      by_cases hintr : code = EINTR
      · rw [if_pos hintr] at h ⊢
        exact ih h
      · rw [if_neg hintr]

/-! ## The status -/

/-- The status of a child that nothing is left to drain from. -/
def finishStatus (p : Process) (status : Option ExitStatus)
    (blocking : List (Except Int32 Int32)) : Option (Except SysError ExitStatus) :=
  match status with
  | some status => some (.ok status)
  | none => p.waitBlocking blocking

/-- The same for a turn that begins with the status `status`. -/
def turnStatus (p : Process) (status : Option ExitStatus) (t : Turn) :
    Option (Except SysError ExitStatus) :=
  match status with
  | some status => some (.ok status)
  | none =>
    match p.waitStep t.wait with
    | .error e => some (.error e)
    | .ok found => finishStatus p found t.blocking

/-- The status that a loop with nothing to drain comes to, if it returns. -/
def awaitStatus (p : Process) (wait : List WaitAnswer) (ts : List Turn) :
    Option (Except SysError ExitStatus) :=
  match p.waitStep wait with
  | .error e => some (.error e)
  | .ok status => ts.head?.bind (turnStatus p status)

/-- A call to `waitpid` that the loop makes fails for good. -/
def AwaitFails (wait : List WaitAnswer) (ts : List Turn) : Prop :=
  waitFails wait = true ∨ stillRunning wait = true ∧ ∃ t, ts.head? = some t ∧
    (waitFails t.wait = true ∨ stillRunning t.wait = true ∧ blockingFails t.blocking = true)

theorem turnStatus_error_iff (p : Process) (status : Option ExitStatus) (t : Turn) :
    (∃ e, turnStatus p status t = some (.error e)) ↔
      status = none ∧ (waitFails t.wait = true ∨
        stillRunning t.wait = true ∧ blockingFails t.blocking = true) := by
  unfold turnStatus
  cases status with
  | some st => simp
  | none =>
    rw [← p.waitStep_error_iff, ← p.waitStep_none_iff, ← p.waitBlocking_error_iff]
    cases p.waitStep t.wait with
    | error e => simp
    | ok found =>
      cases found with
      | some st => simp [finishStatus]
      | none => simp [finishStatus]

theorem awaitStatus_error_iff (p : Process) (wait : List WaitAnswer) (ts : List Turn) :
    (∃ e, awaitStatus p wait ts = some (.error e)) ↔ AwaitFails wait ts := by
  unfold awaitStatus AwaitFails
  rw [← p.waitStep_error_iff, ← p.waitStep_none_iff]
  cases hfirst : p.waitStep wait with
  | error e => simp
  | ok found =>
    cases ts with
    | nil => simp
    | cons t ts =>
      have hturn := turnStatus_error_iff p found t
      simp only [List.head?_cons, Option.bind_some, Option.some.injEq, exists_eq_left',
        reduceCtorEq, exists_false, false_or, Except.ok.injEq]
      exact hturn

/-! ## The loop -/

/-- A signal or a `waitpid` that reaps the child. -/
def SpawnOp.IsWait : SpawnOp → Prop
  | .signalled _ _ | .reaped _ => True
  | _ => False

theorem isWait_pipedFds (op : SpawnOp) (h : op.IsWait) : op.pipedFds = [] := by
  cases op with
  | piped => exact absurd h id
  | _ => rfl

theorem isWait_closedFds (op : SpawnOp) (h : op.IsWait) : op.closedFds = [] := by
  cases op with
  | closed => exact absurd h id
  | _ => rfl

theorem isWait_forgottenFds (op : SpawnOp) (h : op.IsWait) : op.forgottenFds = [] := by
  cases op with
  | forgotten => exact absurd h id
  | _ => rfl

theorem isWait_children (op : SpawnOp) (h : op.IsWait) : op.children = [] := by
  cases op with
  | started => exact absurd h id
  | _ => rfl

theorem isWait_wroteBytes (op : SpawnOp) (h : op.IsWait) : op.wroteBytes = [] := by
  cases op with
  | wrote => exact absurd h id
  | _ => rfl

/-- Reading such operations for anything else gives nothing. -/
theorem flatMap_waits {α : Type} {f : SpawnOp → List α} {ops : List SpawnOp}
    (hf : ∀ op, op.IsWait → f op = []) (hops : ∀ op ∈ ops, op.IsWait) : ops.flatMap f = [] := by
  rw [List.flatMap_eq_nil_iff]
  exact fun op hop => hf op (hops op hop)

namespace WaitLoop

variable {a : WaitArgs} {s : WaitState}

theorem reapedOps_isWait (p : Process) (reaps : Bool) : ∀ op ∈ reapedOps p reaps, op.IsWait := by
  intro op hop
  unfold reapedOps at hop
  split at hop
  · rw [List.mem_singleton.mp hop]
    exact trivial
  · cases hop

/-- The escalation sends signals and touches nothing but its own state. -/
theorem escalate_spec (a : WaitArgs) (s : WaitState) (elapsedOver : ℕ) (errno : Option Int32) :
    ∃ kill ops, escalate a s elapsedOver errno = { s.did ops with kill := kill } ∧
      (∀ op ∈ ops, op.IsWait) ∧ ops.flatMap SpawnOp.reapedPids = [] := by
  have hsignal : ∀ signal, (∀ op ∈ [signalOp a signal], op.IsWait) ∧
      [signalOp a signal].flatMap SpawnOp.reapedPids = [] := by
    intro signal
    refine ⟨fun op hop => ?_, rfl⟩
    rw [List.mem_singleton.mp hop]
    exact trivial
  have hquiet : ∃ kill ops, s = { s.did ops with kill := kill } ∧
      (∀ op ∈ ops, op.IsWait) ∧ ops.flatMap SpawnOp.reapedPids = [] := by
    refine ⟨s.kill, [], ?_, List.forall_mem_nil _, rfl⟩
    unfold WaitState.did
    rw [List.append_nil]
  unfold escalate
  split
  · split
    · exact ⟨_, _, rfl, hsignal _⟩
    · exact ⟨_, _, rfl, hsignal _⟩
    · exact hquiet
  · split
    · exact ⟨_, _, rfl, hsignal _⟩
    · exact hquiet
  · exact hquiet

theorem checkDeadline_spec (a : WaitArgs) (s : WaitState) (now : Instant) (errno : Option Int32) :
    ∃ timedOut kill ops, (checkDeadline a s now errno).1 =
        { s.did ops with timedOut := timedOut, kill := kill } ∧
      (∀ op ∈ ops, op.IsWait) ∧ ops.flatMap SpawnOp.reapedPids = [] := by
  have hquiet : ∃ timedOut kill ops, s = { s.did ops with timedOut := timedOut, kill := kill } ∧
      (∀ op ∈ ops, op.IsWait) ∧ ops.flatMap SpawnOp.reapedPids = [] := by
    refine ⟨s.timedOut, s.kill, [], ?_, List.forall_mem_nil _, rfl⟩
    unfold WaitState.did
    rw [List.append_nil]
  unfold checkDeadline
  split
  · exact hquiet
  · next dl _ =>
    by_cases hpast : now ≥ dl
    · rw [if_pos hpast]
      have ⟨kill, ops, heq, hops⟩ :=
        escalate_spec a { s with timedOut := true } ((now - dl) / 1000000) errno
      exact ⟨true, kill, ops, heq, hops⟩
    · rw [if_neg hpast]
      exact hquiet

theorem slots_of_isDone {d : DrainState} (hdone : d.isDone = true) :
    d.stdinSlot = none ∧ d.stdoutSlot = none ∧ d.stderrSlot = none := by
  unfold DrainState.isDone at hdone
  rw [Bool.and_eq_true, Bool.and_eq_true, Option.isNone_iff_eq_none, Option.isNone_iff_eq_none,
    Option.isNone_iff_eq_none] at hdone
  exact ⟨hdone.1.1, hdone.1.2, hdone.2⟩

/-- Nothing is dropped with a drain whose slots are empty. -/
theorem abandon_of_isDone (hdone : s.drain.isDone = true) : s.abandon.ops = s.ops := by
  have ⟨hstdin, hstdout, hstderr⟩ := slots_of_isDone hdone
  unfold WaitState.abandon WaitState.did
  rw [hstdin, hstdout, hstderr]
  exact List.append_nil _

/-- What a loop with nothing to drain does in its last turn: it comes to a status or does not
return, and a failure takes no status away. -/
structure Ended (a : WaitArgs) (s : WaitState) (status : Option (Except SysError ExitStatus))
    (r : WaitState × Verdict) : Prop where
  stops : r.2 ≠ .again
  result : ∃ timedOut, r.2.result = status.map (Except.map fun st =>
    ⟨a.process.pid, some st, s.drain.buffer.stdout, s.drain.buffer.stderr, timedOut⟩)
  ops : ∃ ops, r.1.ops = s.ops ++ ops ∧ (∀ op ∈ ops, op.IsWait) ∧
    ((∃ e, status = some (.error e)) → ops.flatMap SpawnOp.reapedPids = [])

theorem takeAllSlots_of_isDone {d : DrainState} (hdone : d.isDone = true) :
    d.takeAllSlots.1 = [] := by
  have ⟨hstdin, hstdout, hstderr⟩ := slots_of_isDone hdone
  unfold DrainState.takeAllSlots
  rw [hstdin, hstdout, hstderr]
  rfl

/-- What was done before, if it took no status away in vain, does not matter. -/
theorem Ended.after {s₁ : WaitState} {status : Option (Except SysError ExitStatus)}
    {r : WaitState × Verdict} (h : Ended a s₁ status r) {ops : List SpawnOp}
    (hdrain : s₁.drain = s.drain) (hops : s₁.ops = s.ops ++ ops) (hwait : ∀ op ∈ ops, op.IsWait)
    (hreaped : (∃ e, status = some (.error e)) → ops.flatMap SpawnOp.reapedPids = []) :
    Ended a s status r := by
  have ⟨rest, hrest, hrestWait, hrestReaped⟩ := h.ops
  refine ⟨h.stops, ?_, ops ++ rest, ?_, ?_, ?_⟩
  · rw [← hdrain]
    exact h.result
  · rw [hrest, hops, List.append_assoc]
  · intro op hop
    rcases List.mem_append.mp hop with hop | hop
    · exact hwait op hop
    · exact hrestWait op hop
  · intro herror
    rw [List.flatMap_append, hreaped herror, hrestReaped herror]
    rfl

/-- `wait_blocking`, unless the status is known, and the end of the loop. -/
theorem finish_ended (hdone : s.drain.isDone = true) (blocking : List (Except Int32 Int32)) :
    Ended a s (finishStatus a.process s.status blocking) (finish a s blocking) := by
  have hslots := takeAllSlots_of_isDone hdone
  unfold finish finishStatus
  -- a known status is returned, otherwise the loop blocks for it
  cases hstatus : s.status with
  | some st =>
    refine ⟨(fun h => by cases h), ⟨s.timedOut, rfl⟩, [], ?_, List.forall_mem_nil _, fun _ => rfl⟩
    simp [WaitState.did, hslots, reapedOps]
  | none =>
    have hwait := reapedOps_isWait a.process (reapsBlocking blocking)
    cases hblocking : a.process.waitBlocking blocking with
    | none =>
      refine ⟨(fun h => by cases h), ⟨false, rfl⟩, _, rfl, hwait, ?_⟩
      intro ⟨e, he⟩
      cases he
    | some r =>
      cases r with
      | error e =>
        refine ⟨(fun h => by cases h), ⟨false, rfl⟩, _, abandon_of_isDone hdone, hwait, ?_⟩
        intro _
        have hfails := (a.process.waitBlocking_error_iff blocking).mp ⟨e, hblocking⟩
        rw [reapsBlocking_eq_false hfails]
        rfl
      | ok st =>
        refine ⟨(fun h => by cases h), ⟨s.timedOut, rfl⟩, _, ?_, hwait, ?_⟩
        · simp [WaitState.did, hslots]
        · intro ⟨e, he⟩
          cases he

/-- A `wait_step` that fails ends the loop; otherwise the loop knows what it found. -/
theorem step_spec (a : WaitArgs) (s : WaitState) (wait : List WaitAnswer)
    (hnone : s.status = none) :
    ∃ ops, (∀ op ∈ ops, op.IsWait) ∧
      ((∃ e, a.process.waitStep wait = .error e ∧ step a s wait = (s, .error e)) ∨
        ∃ found, a.process.waitStep wait = .ok found ∧
          step a s wait = ({ s.did ops with status := found }, .ok ()) ∧
          (found = none → ops.flatMap SpawnOp.reapedPids = [])) := by
  refine ⟨reapedOps a.process (reapsChild wait), reapedOps_isWait _ _, ?_⟩
  unfold step
  rw [hnone]
  cases hfound : a.process.waitStep wait with
  | error e => exact Or.inl ⟨e, rfl, rfl⟩
  | ok found =>
    -- a call that finds the child running has not reaped it
    refine Or.inr ⟨found, rfl, rfl, fun hrunning => ?_⟩
    rw [hrunning, a.process.waitStep_none_iff] at hfound
    rw [reapsChild_eq_false (Or.inl hfound)]
    rfl

/-- One turn with nothing to drain is the last one. -/
theorem turn_ended (hdone : s.drain.isDone = true) (t : Turn) :
    Ended a s (turnStatus a.process s.status t) (turn a s t) := by
  have ⟨timedOut, kill, signals, hcheck, hsignals, hreaped⟩ := checkDeadline_spec a s t.now t.kill
  unfold turn
  generalize checkDeadline a s t.now t.kill = checked at hcheck ⊢
  have ⟨s', pollTimeout⟩ := checked
  change s' = _ at hcheck
  have hdrain : s'.drain = s.drain := by rw [hcheck]; rfl
  have hstatus : s'.status = s.status := by rw [hcheck]; rfl
  have hops : s'.ops = s.ops ++ signals := by rw [hcheck]; rfl
  have hdone' : s'.drain.isDone = true := by rw [hdrain, hdone]
  clear hcheck
  -- what the deadline did is put in front of the rest of the turn
  refine @Ended.after _ _ s' _ _ ?_ _ hdrain hops hsignals (fun _ => hreaped)
  rw [← hstatus]
  dsimp only
  unfold turnStatus
  cases hknown : s'.status with
  | some st =>
    have hstep : step a s' t.wait = (s', .ok ()) := by
      unfold step
      rw [hknown]
    rw [hstep]
    have hfinish := finish_ended (a := a) hdone' t.blocking
    rw [hknown] at hfinish
    simp only [hdone', if_true]
    exact hfinish
  | none =>
    have ⟨ops, hwait, hcases⟩ := step_spec a s' t.wait hknown
    rcases hcases with ⟨e, hfound, hstep⟩ | ⟨found, hfound, hstep, hrunning⟩
    · -- `wait_step` fails
      rw [hstep, hfound]
      refine ⟨(fun h => by cases h), ⟨false, rfl⟩, [], ?_, List.forall_mem_nil _, fun _ => rfl⟩
      rw [List.append_nil]
      exact abandon_of_isDone hdone'
    · rw [hstep, hfound]
      have hdid : ({ s'.did ops with status := found } : WaitState).drain.isDone = true := hdone'
      have hfinish := finish_ended (a := a) hdid t.blocking
      simp only [hdid, if_true]
      refine hfinish.after rfl rfl hwait ?_
      intro ⟨e, he⟩
      cases found with
      | some st => cases he
      | none => exact hrunning rfl

/-- A turn that does not ask for another one is the last. -/
theorem turns_of_stops {t : Turn} {ts : List Turn} (h : (turn a s t).2 ≠ .again) :
    turns a s (t :: ts) = turn a s t := by
  unfold turns
  generalize turn a s t = r at h ⊢
  have ⟨s', v⟩ := r
  cases v with
  | again => exact absurd rfl h
  | blocked => rfl
  | returned => rfl

/-- The whole loop with nothing to drain. -/
theorem waitLoop_ended {drain : DrainState} (hdone : drain.isDone = true)
    (wait : List WaitAnswer) (ts : List Turn) :
    (∃ timedOut, (waitLoop a drain wait ts).2.result =
      (awaitStatus a.process wait ts).map (Except.map fun st =>
        ⟨a.process.pid, some st, drain.buffer.stdout, drain.buffer.stderr, timedOut⟩)) ∧
    (∀ op ∈ (waitLoop a drain wait ts).1.ops, op.IsWait) ∧
    ((∃ e, awaitStatus a.process wait ts = some (.error e)) →
      (waitLoop a drain wait ts).1.ops.flatMap SpawnOp.reapedPids = []) := by
  unfold waitLoop awaitStatus
  have ⟨ops, hwait, hcases⟩ := step_spec a ⟨drain, none, .none, false, []⟩ wait rfl
  rcases hcases with ⟨e, hfound, hstep⟩ | ⟨found, hfound, hstep, hrunning⟩
  · rw [hstep, hfound]
    have hops := abandon_of_isDone (s := ⟨drain, none, .none, false, []⟩) hdone
    dsimp only
    rw [hops]
    exact ⟨⟨false, rfl⟩, List.forall_mem_nil _, fun _ => rfl⟩
  · rw [hstep, hfound]
    cases ts with
    | nil => exact ⟨⟨false, rfl⟩, hwait, fun ⟨e, he⟩ => by cases he⟩
    | cons t ts =>
      -- whatever the first call found, the first turn is the last
      have hturn := turn_ended (a := a)
        (s := { WaitState.did ⟨drain, none, .none, false, []⟩ ops with status := found }) hdone t
      dsimp only
      rw [turns_of_stops hturn.stops]
      have ⟨rest, hrest, hrestWait, hrestReaped⟩ := hturn.ops
      rw [hrest]
      refine ⟨hturn.result, ?_, ?_⟩
      · intro op hop
        rcases List.mem_append.mp hop with hop | hop
        · exact hwait op hop
        · exact hrestWait op hop
      · intro herror
        rw [List.flatMap_append, hrestReaped herror, List.append_nil]
        cases found with
        | some st =>
          have ⟨e, he⟩ := herror
          cases he
        | none => exact hrunning rfl

end WaitLoop
end CoreShift
