import CoreShift.Outputs
import CoreShift.Owners
import Mathlib.Algebra.Order.BigOperators.Group.Finset

/-!
# What the daemon holds

The daemon runs for as long as the device does, so its tables must not grow with what clients
ask for. Those of the jobs, of the children and of what they wrote do not: a job is never taken
from them, but no more than 64 jobs are ever put there.
-/

namespace CoreShift

open Utils WorkQueue

open EffectExecutor (executor)

section Issued

variable {σ α : Type} {E : Executor σ α}

/-- Handles are only given to a job that is started. -/
theorem World.Reacts.issued_le {w w' : World σ} {a : Action} {o : PopLog} {out : List Action}
    (h : World.Reacts E w a o out w') :
    (o.events.filterMap Event.issued).length ≤ (o.effects.filterMap Effect.task).length := by
  rw [h.tasks]
  rcases h.started_by with hnone | ⟨id, process, io, exec, policy, hone, ha⟩
  · rw [hnone]
    exact Nat.zero_le _
  · rw [hone, ha]
    exact le_rfl

theorem issued_le_tasks {c c' : Loop σ} {t : List Label} (h : Run (Loop.Step E) c t c') :
    (issuedIn t).length ≤ (tasksStarted t).length := by
  induction h with
  | nil => exact le_rfl
  | @cons c l c₁ t c₂ hs _ ih =>
    have hissued : issuedIn (l :: t) = issuedIn [l] ++ issuedIn t := issuedIn_append [l] t
    have htasks : tasksStarted (l :: t) = tasksStarted [l] ++ tasksStarted t :=
      tasksStarted_append [l] t
    have hhead : (issuedIn [l]).length ≤ (tasksStarted [l]).length := by
      cases hs with
      | feed => exact Nat.zero_le _
      | @pop a o _ hpop =>
        have ⟨_, _, _, _, hw⟩ := pop_iff.mp hpop
        rw [issuedIn_pop, tasksStarted, Label.pops_pop, List.flatMap_singleton]
        exact hw.reacts.issued_le
    rw [hissued, htasks, List.length_append, List.length_append]
    omega

/-- Without polls, no more jobs are admitted and started than there is room for. -/
theorem Serving.le {maxJobs : ℕ} {t : List Label} {c : Loop σ} (h : Serving maxJobs t c) :
    (tasksAdmitted t).length ≤ maxJobs ∧ (tasksStarted t).length ≤ maxJobs := by
  have hadmitted := congrArg List.length h.admitted
  have hstarted := congrArg List.length h.started
  rw [List.length_append, List.length_take] at hadmitted
  rw [List.length_append] at hstarted
  omega

end Issued

/-! ## The drains of a recorded run -/

namespace Recorded

variable {maxJobs : ℕ} {ks : List (Entry EffectExecutor OsAnswer)} {c : Loop EffectExecutor}

/-- A drain holds no more of an output than the limit of its task. -/
theorem drain_le (hrec : Recorded maxJobs ks c) {io : IoHandle} {drain : DrainState}
    (hdrain : c.world.exec.drains.get io = some drain) :
    ∃ task ∈ tasksStarted (labelsOf ks),
      ∀ i, (drain.buffer.dest i).length ≤ task.exec.maxOutput := by
  have ⟨_, h, after, _, _, running, hsplit, hstarts, heq⟩ := hrec.drain_started hdrain
  have hh : h ∈ handlings ks := by simp [hsplit]
  have ⟨exec, policy, _, ha, _, _, _, hunused⟩ := hrec.spawned hh hstarts
  have ⟨_, _, htended⟩ := hunused.tended Streams.exactAlloc (servings io after)
  refine ⟨_, task_of_start hh ha, fun i => ?_⟩
  rw [heq, htended.output i, List.length_take]
  exact Nat.min_le_left _ _

end Recorded

/-! ## The tables of the daemon -/

/-- The bytes that are held of a child. -/
def DrainState.held (drain : DrainState) : ℕ :=
  drain.buffer.stdout.length + drain.buffer.stderr.length

/-- The bytes that are held of all children. -/
def EffectExecutor.held (x : EffectExecutor) : ℕ :=
  ∑ io ∈ x.drains.keys, (x.drains.get io).elim 0 DrainState.held

theorem Command.maxOutput_le (cmd : Command) : cmd.mapToExec.1.maxOutput ≤ 4 * 1024 * 1024 := by
  cases cmd with
  | cmd => show 1024 * 1024 ≤ 4 * 1024 * 1024; omega
  | dumpsys => exact le_rfl

namespace Daemon

variable {json : Json} {t : List DaemonLabel} {d : Daemon}

theorem tables_le (hrun : Run (Step json) .new t d) :
    d.loop.world.state.jobs.len ≤ 64 ∧ d.loop.world.exec.processes.len ≤ 64 ∧
      d.loop.world.exec.drains.len ≤ 64 := by
  have hloop := loop_run hrun
  have hserving : Serving 64 (loopLabels t) d.loop := Serving.run hloop (tasks_run hrun).2
  have ⟨hadmitted, hstarted⟩ := hserving.le
  have hissued := issued_le_tasks hloop
  have hmany : 2 * (issuedIn (loopLabels t)).length < 2 ^ 64 := by omega
  have htables := (Accounting.run hloop hmany).tables
  have hadmits : ∀ id ∈ d.loop.world.state.jobs.keys,
      ∃ task ∈ tasksAdmitted (loopLabels t), task.id = id := by
    intro id hid
    rw [HashMap.mem_keys, ← Option.isSome_iff_exists, hserving.jobs] at hid
    exact List.mem_map.mp hid
  have hjobs := HashMap.len_le_length _ hadmits
  have hprocesses := HashMap.len_le_length _ htables.processes
  have hdrains := HashMap.len_le_length _ htables.drains
  omega

theorem drain_le (hrun : Run (Step json) .new t d) {ks : List (Entry EffectExecutor OsAnswer)}
    (hrec : Recorded 64 ks d.loop) (hks : labelsOf ks = loopLabels t) {io : IoHandle}
    {drain : DrainState} (hdrain : d.loop.world.exec.drains.get io = some drain) (i : Bool) :
    (drain.buffer.dest i).length ≤ 4 * 1024 * 1024 := by
  have ⟨task, htask, hle⟩ := hrec.drain_le hdrain
  rw [hks] at htask
  have hsubmitted := (InOrder.run (loop_run hrun)).tasks.subset htask
  rw [(tasks_run hrun).1] at hsubmitted
  have ⟨id, uid, cmd, _, heq⟩ := mem_numbered hsubmitted
  calc (drain.buffer.dest i).length ≤ task.exec.maxOutput := hle i
    _ = cmd.mapToExec.1.maxOutput := by rw [heq]; rfl
    _ ≤ 4 * 1024 * 1024 := cmd.maxOutput_le

end Daemon

/-- In every reachable state of the daemon, whatever clients ask for and children write: no table
has more than 64 jobs, processes or drains, no result and no timer is stored, no output of a
child takes more than 4 MiB, and all that is held of the children takes at most 512 MiB. -/
theorem daemon_footprint {json : Json} {t : List DaemonLabel} {d : Daemon}
    {ks : List (Entry EffectExecutor OsAnswer)} (hrun : Run (Daemon.Step json) .new t d)
    (hrec : Recorded 64 ks d.loop) (hks : labelsOf ks = Daemon.loopLabels t) :
    (d.loop.world.state.jobs.len ≤ 64 ∧ d.loop.world.exec.processes.len ≤ 64 ∧
      d.loop.world.exec.drains.len ≤ 64) ∧
    (d.loop.world.state.results.len = 0 ∧ d.loop.world.dispatcher.timeout.tracking.len = 0) ∧
    (∀ io drain, d.loop.world.exec.drains.get io = some drain →
      ∀ i, (drain.buffer.dest i).length ≤ 4 * 1024 * 1024) ∧
    d.loop.world.exec.held ≤ 512 * 1024 * 1024 := by
  have hdrains : ∀ io drain, d.loop.world.exec.drains.get io = some drain →
      ∀ i, (drain.buffer.dest i).length ≤ 4 * 1024 * 1024 :=
    fun io drain hdrain i => Daemon.drain_le hrun hrec hks hdrain i
  have htables := Daemon.tables_le hrun
  refine ⟨htables, ⟨?_, ?_⟩, hdrains, ?_⟩
  · exact HashMap.len_eq_zero (Daemon.resultless_run hrun).results
  · exact HashMap.len_eq_zero (Daemon.untimed_run hrun).timers
  -- a drain holds two outputs of at most 4 MiB each
  · have hheld : ∀ io ∈ d.loop.world.exec.drains.keys,
        (d.loop.world.exec.drains.get io).elim 0 DrainState.held ≤ 8 * 1024 * 1024 := by
      intro io hio
      have ⟨drain, hdrain⟩ := HashMap.mem_keys.mp hio
      have hstdout : drain.buffer.stdout.length ≤ _ := hdrains io drain hdrain true
      have hstderr : drain.buffer.stderr.length ≤ _ := hdrains io drain hdrain false
      rw [hdrain]
      show drain.buffer.stdout.length + drain.buffer.stderr.length ≤ _
      omega
    calc d.loop.world.exec.held
        ≤ d.loop.world.exec.drains.keys.card * (8 * 1024 * 1024) :=
          Finset.sum_le_card_nsmul _ _ _ hheld
      _ ≤ 64 * (8 * 1024 * 1024) := Nat.mul_le_mul_right _ htables.2.2

/-! ### One child -/

/-- The answers to the start of the command of `busy`, and to a reading of two bytes. -/
def OsAnswer.supplied : OsAnswer :=
  { OsAnswer.started 0 with
    spawn := (spawnStart 1 (EffectExecutor.startOptions (Command.task 1 (.cmd "a" [])).exec
      (Command.task 1 (.cmd "a" [])).policy) .smooth).result
    stdout := [.data [104, 105]] }

namespace Daemon

/-- The daemon after a client has asked for a command. -/
noncomputable def supplied : List DaemonPop × Daemon :=
  busy.2.runPops .small (List.replicate 20 (.still 0, .supplied))

/-- The child has written something. -/
noncomputable def written : RoundLog × Daemon :=
  supplied.2.round .small [(⟨⟨7⟩, true, false, false⟩, [])]

/-- Its output is read. -/
noncomputable def captured : List DaemonPop × Daemon :=
  written.2.runPops .small [(.still 0, .supplied)]

noncomputable def capturedLabels : List DaemonLabel :=
  .round busy.1 :: supplied.1.map .pop ++ .round written.1 :: captured.1.map .pop

theorem captured_run : Run (Step .small) .new capturedLabels captured.2 := by
  have hstart : Run (Step .small) .new _ supplied.2 := busy_round.steps (runPops_run _ _ _)
  have hwritten : RoundStep .small supplied.2 written.1 written.2 :=
    .round _ (by decide) (by decide)
  exact hstart.append (hwritten.steps (runPops_run _ _ _))

/-- The record of its loop. -/
noncomputable def capturedRecord : List (Entry EffectExecutor OsAnswer) :=
  let acts := busy.1.1.1
  let started := Loop.recordPops executor (List.replicate 20 (.still 0, .supplied))
    ((Loop.init 64 .new).feed acts [])
  .feed acts [] :: started.1 ++ .feed [] [.jobFdReady 1 true false false] ::
    (Loop.recordPops executor [(.still 0, .supplied)]
      (started.2.feed [] [.jobFdReady 1 true false false])).1

theorem captured_recorded : Recorded 64 capturedRecord captured.2.loop := by
  have hrun : Run (Loop.Records executor) (.init 64 .new) capturedRecord captured.2.loop :=
    (Run.cons (.feed rfl (by decide) (by decide)) (Loop.recordPops_run _ _ _)).append <|
      .cons (.feed rfl (by decide) (by decide)) (Loop.recordPops_run _ _ _)
  have hanswers : (handlings capturedRecord).map Handling.ans = List.replicate 11 .supplied := rfl
  have htasks : tasksStarted (labelsOf capturedRecord) = [Command.task 1 (.cmd "a" [])] := rfl
  exact .of_task .smooth hrun hanswers htasks rfl

theorem captured_labels : labelsOf capturedRecord = loopLabels capturedLabels := rfl

theorem daemon_footprint_supplied :
    ∃ drain, captured.2.loop.world.exec.drains.get ⟨2⟩ = some drain ∧
      drain.buffer.stdout = [104, 105] ∧
      (∀ i, (drain.buffer.dest i).length ≤ 4 * 1024 * 1024) ∧
      captured.2.loop.world.exec.held ≤ 512 * 1024 * 1024 := by
  have ⟨_, _, hdrains, hheld⟩ := daemon_footprint captured_run captured_recorded captured_labels
  exact ⟨_, rfl, rfl, hdrains ⟨2⟩ _ rfl, hheld⟩

end Daemon
end CoreShift
