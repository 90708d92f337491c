import CoreShift.Consistency
import CoreShift.Signals
import CoreShift.Utils.Handles

/-!
# Handles that nobody records

A start puts a process and a drain into the tables of the executor, and the two handles into the
job's record. `Finished` takes the record away, and no effect takes anything out of the tables:
they agree with the records as long as no job that has handles leaves `state.jobs`.
-/

namespace CoreShift

open Utils WorkQueue

/-! ## Records and tables -/

namespace World

/-- The process handle that a job has recorded. -/
def processOf {σ : Type} (w : World σ) (id : JobId) : Option ProcessHandle :=
  (w.state.jobs.get id).bind JobState.process

/-- The io handle that a job has recorded. -/
def ioOf {σ : Type} (w : World σ) (id : JobId) : Option IoHandle :=
  (w.state.jobs.get id).bind JobState.io

/-- The tables of the executor and the records of the jobs agree. -/
structure NoOrphans (w : World EffectExecutor) : Prop where
  processes : Accounted w.processOf w.exec.processes.keys
  drains : Accounted w.ioOf w.exec.drains.keys

/-- The job is not there, or has no handles. -/
def Unequipped {σ : Type} (w : World σ) (id : JobId) : Prop :=
  w.processOf id = none ∧ w.ioOf id = none

/-- The handles of the next start are not in use. -/
def FreshHandles (w : World EffectExecutor) : Prop :=
  ⟨w.exec.nextHandle⟩ ∉ w.exec.processes.keys ∧ ⟨w.exec.nextHandle + 1⟩ ∉ w.exec.drains.keys

/-- No handle is lost in this step: a job that is removed or admitted anew has none, and a start
that succeeds gives new ones to a job that is there and has none. -/
def KeepsHandles (w : World EffectExecutor) : Label → Prop
  | .pop (.finished id _) _ => w.Unequipped id
  | .pop (.admitted id _ _ _) _ => w.Unequipped id
  | .pop (.startProcess id _ _) o => (∀ err, o.events ≠ [.processSpawnFailed id err]) →
      (w.state.jobs.get id).isSome = true ∧ w.Unequipped id ∧ w.FreshHandles
  | _ => True

end World

/-- A step of the loop that loses no handle. -/
def Loop.KeepStep (c : Loop EffectExecutor) (l : Label) (c' : Loop EffectExecutor) : Prop :=
  Loop.Step EffectExecutor.executor c l c' ∧ c.world.KeepsHandles l

/-! ## What one pop does to them -/

namespace EffectExecutor

/-- A start adds a process and a drain, under the next two handles. -/
structure Issues (x x' : EffectExecutor) : Prop where
  processes : x'.processes.keys = insert ⟨x.nextHandle⟩ x.processes.keys
  drains : x'.drains.keys = insert ⟨x.nextHandle + 1⟩ x.drains.keys

/-- Nothing enters the tables, or leaves them. -/
structure Retains (x x' : EffectExecutor) : Prop where
  processes : x'.processes.keys = x.processes.keys
  drains : x'.drains.keys = x.drains.keys

theorem Retains.refl (x : EffectExecutor) : Retains x x := ⟨rfl, rfl⟩

theorem apply_tables (x : EffectExecutor) (e : Effect) (ans : OsAnswer) :
    (∃ id, (x.apply e ans).2 = some (.processStarted id ⟨x.nextHandle⟩ ⟨x.nextHandle + 1⟩) ∧
        Issues x (x.apply e ans).1) ∨
      ((x.apply e ans).2.toList.filterMap Event.issued = [] ∧ Retains x (x.apply e ans).1) := by
  rcases apply_cases x e ans with ⟨id, running, hans⟩ | ⟨hnone, _, hprocesses, hdrains⟩
  · rw [hans]
    exact Or.inl ⟨id, rfl, HashMap.keys_insert _ _ _, HashMap.keys_insert _ _ _⟩
  · exact Or.inr ⟨hnone, congrArg HashMap.keys hprocesses, hdrains⟩

end EffectExecutor

open EffectExecutor (Issues Retains executor)

/-- What a pop for the job `id` does to the records and the tables. -/
inductive World.HandleStep (w : World EffectExecutor) (id : JobId) (a : Action) (o : PopLog)
    (w' : World EffectExecutor) : Prop
  | recorded {exec policy} : a = .startProcess id exec policy →
      o.events = [.processStarted id ⟨w.exec.nextHandle⟩ ⟨w.exec.nextHandle + 1⟩] →
      (w.state.jobs.get id).isSome = true → Issues w.exec w'.exec →
      w'.processOf id = some ⟨w.exec.nextHandle⟩ → w'.ioOf id = some ⟨w.exec.nextHandle + 1⟩ →
      HandleStep w id a o w'
  | unclaimed {exec policy} : a = .startProcess id exec policy →
      o.events = [.processStarted id ⟨w.exec.nextHandle⟩ ⟨w.exec.nextHandle + 1⟩] →
      w.state.jobs.get id = none → Issues w.exec w'.exec →
      w'.processOf id = w.processOf id → w'.ioOf id = w.ioOf id → HandleStep w id a o w'
  | cleared : a.isFinish = true ∨ a.isAdmission = true → Retains w.exec w'.exec →
      w'.Unequipped id → HandleStep w id a o w'
  | kept : a.isFinish = false → a.isAdmission = false →
      (a.isStart = true → ∃ err, o.events = [.processSpawnFailed id err]) →
      Retains w.exec w'.exec → w'.processOf id = w.processOf id → w'.ioOf id = w.ioOf id →
      HandleStep w id a o w'

namespace World.Reacts

variable {w w' : World EffectExecutor} {a : Action} {o : PopLog} {out : List Action}

/-- The tables after a pop. -/
theorem tables (h : World.Reacts executor w a o out w') :
    (∃ id, o.events = [.processStarted id ⟨w.exec.nextHandle⟩ ⟨w.exec.nextHandle + 1⟩] ∧
        Issues w.exec w'.exec) ∨
      (o.events.filterMap Event.issued = [] ∧ Retains w.exec w'.exec) := by
  rcases h.applied with ⟨_, hev, hexec⟩ | ⟨e, ans, _, hev, hexec⟩
  · rw [hev, hexec]
    exact Or.inr ⟨rfl, .refl _⟩
  · rw [hev, hexec]
    rcases EffectExecutor.apply_tables w.exec e ans with ⟨id, hans, hissues⟩ | hkept
    · refine Or.inl ⟨id, ?_, hissues⟩
      rw [show (executor.apply w.exec e ans).2 = _ from hans]
      rfl
    · exact Or.inr hkept

/-- Only a start adds to the tables. -/
theorem retains (h : World.Reacts executor w a o out w') (ha : a.isStart = false) :
    Retains w.exec w'.exec := by
  rcases h.tables with ⟨id, hev, _⟩ | ⟨_, hretains⟩
  · rcases h.started_by with hnone | ⟨_, _, _, _, _, _, hstart⟩
    · rw [hev] at hnone
      cases hnone
    · rw [hstart] at ha
      cases ha
  · exact hretains

/-- A start that succeeds reports the two handles under which it added to the tables. -/
theorem issues (h : World.Reacts executor w a o out w') {id : JobId} {process : ProcessHandle}
    {io : IoHandle} (hev : o.events = [.processStarted id process io]) :
    Issues w.exec w'.exec ∧ process = ⟨w.exec.nextHandle⟩ ∧ io = ⟨w.exec.nextHandle + 1⟩ := by
  rcases h.tables with ⟨id', hev', hissues⟩ | ⟨hnone, _⟩
  · rw [hev', List.cons.injEq, Event.processStarted.injEq] at hev
    exact ⟨hissues, hev.1.2.1.symm, hev.1.2.2.symm⟩
  · rw [hev] at hnone
    cases hnone

/-- A start that fails adds nothing. -/
theorem retains_of_failed (h : World.Reacts executor w a o out w') {id : JobId} {err : String}
    (hev : o.events = [.processSpawnFailed id err]) : Retains w.exec w'.exec := by
  rcases h.tables with ⟨id', hev', _⟩ | ⟨_, hretains⟩
  · rw [hev', List.cons.injEq] at hev
    cases hev.1
  · exact hretains

end World.Reacts

section Pop

variable {w w' : World EffectExecutor} {id : JobId} {v v' : JobView} {a : Action} {o : PopLog}
  {out out' : List Action}

/-- The records after a pop are those of the outcome. -/
theorem JobView.Outcome.handleStep (hout : v.Outcome id o a v' out)
    (h : World.Reacts executor w a o out' w') (hv : w.state.jobs.get id = v.job)
    (hv' : w'.state.jobs.get id = v'.job) : w.HandleStep id a o w' := by
  have hrecords : ∀ job job' : Option JobState, v.job = job → v'.job = job' →
      job'.bind JobState.process = job.bind JobState.process →
      job'.bind JobState.io = job.bind JobState.io →
      w'.processOf id = w.processOf id ∧ w'.ioOf id = w.ioOf id := by
    intro job job' hj hj' hp hio
    unfold World.processOf World.ioOf
    rw [hv, hv', hj, hj']
    exact ⟨hp, hio⟩
  have hcleared : ∀ job' : Option JobState, v'.job = job' → job'.bind JobState.process = none →
      job'.bind JobState.io = none → w'.Unequipped id := by
    intro job' hj' hp hio
    unfold World.Unequipped World.processOf World.ioOf
    rw [hv', hj']
    exact ⟨hp, hio⟩
  cases hout with
  | @started exec policy job process io hj _ hev =>
    have ⟨hissues, hp, hio⟩ := h.issues hev
    refine .recorded rfl ?_ ?_ hissues ?_ ?_
    · rw [← hp, ← hio]
      exact hev
    · rw [hv, hj]
      rfl
    · unfold World.processOf
      rw [hv', ← hp]
      rfl
    · unfold World.ioOf
      rw [hv', ← hio]
      rfl
  | startedAbsent hj _ hev =>
    have ⟨hissues, hp, hio⟩ := h.issues hev
    have hsame := hrecords _ _ rfl rfl rfl rfl
    refine .unclaimed rfl ?_ (hv.trans hj) hissues hsame.1 hsame.2
    rw [← hp, ← hio]
    exact hev
  | startFailed _ hev =>
    have hsame := hrecords _ _ rfl rfl rfl rfl
    exact .kept rfl rfl (fun _ => ⟨_, hev⟩) (h.retains_of_failed hev) hsame.1 hsame.2
  | admitted => exact .cleared (Or.inr rfl) (h.retains rfl) (hcleared _ rfl rfl rfl)
  | finished => exact .cleared (Or.inl rfl) (h.retains rfl) (hcleared _ rfl rfl rfl)
  | finishedAbsent hj => exact .cleared (Or.inl rfl) (h.retains rfl) (hcleared _ hj rfl rfl)
  | stopped hj =>
    have hsame := hrecords _ _ hj rfl rfl rfl
    exact .kept rfl rfl (fun hs => by cases hs) (h.retains rfl) hsame.1 hsame.2
  | quiet hq =>
    have hsame := hrecords _ _ rfl rfl rfl rfl
    have hstart := (Action.not_launch_of_isQuiet hq).2.1
    refine .kept (Action.not_finish_of_isQuiet hq) (Action.not_admission_of_isQuiet hq) ?_
      (h.retains hstart) hsame.1 hsame.2
    intro hs
    rw [hstart] at hs
    cases hs
  | _ =>
    have hsame := hrecords _ _ rfl rfl rfl rfl
    exact .kept rfl rfl (fun hs => by cases hs) (h.retains rfl) hsame.1 hsame.2

/-- What a pop does to the job that it is about, and to the others. -/
theorem World.Reacts.handleStep (h : World.Reacts executor w a o out w') :
    w.HandleStep a.jobId a o w' ∧ (∀ j, j ≠ a.jobId → w'.processOf j = w.processOf j) ∧
      ∀ j, j ≠ a.jobId → w'.ioOf j = w.ioOf j := by
  have hjob : ∀ j, j ≠ a.jobId → w'.state.jobs.get j = w.state.jobs.get j :=
    fun j hj => (h.others j hj).job
  refine ⟨h.outcome.handleStep h rfl h.own.job, fun j hj => ?_, fun j hj => ?_⟩
  · unfold World.processOf
    rw [hjob j hj]
  · unfold World.ioOf
    rw [hjob j hj]

theorem Loop.Step.handleStep {c c' : Loop EffectExecutor} (h : Loop.Step executor c (.pop a o) c') :
    c.world.HandleStep a.jobId a o c'.world ∧
      (∀ j, j ≠ a.jobId → c'.world.processOf j = c.world.processOf j) ∧
      ∀ j, j ≠ a.jobId → c'.world.ioOf j = c.world.ioOf j := by
  cases h with
  | pop hpop =>
    have ⟨_, _, _, _, hw⟩ := pop_iff.mp hpop
    exact hw.reacts.handleStep

end Pop

/-! ## Steps that lose no handle -/

namespace World

/-- Some handle of a table is recorded by no job. -/
def Orphans (w : World EffectExecutor) : Prop :=
  Orphaned w.processOf w.exec.processes.keys ∨ Orphaned w.ioOf w.exec.drains.keys

theorem NoOrphans.not_orphans {w : World EffectExecutor} (h : w.NoOrphans) : ¬ w.Orphans := by
  intro ho
  rcases ho with ho | ho
  · exact h.processes.not_orphaned ho
  · exact h.drains.not_orphaned ho

theorem equipped_of_not {σ : Type} {w : World σ} {id : JobId} (h : ¬ w.Unequipped id) :
    (∃ p, w.processOf id = some p) ∨ ∃ io, w.ioOf id = some io := by
  unfold Unequipped at h
  cases hp : w.processOf id with
  | some p => exact Or.inl ⟨p, rfl⟩
  | none =>
    cases hio : w.ioOf id with
    | some io => exact Or.inr ⟨io, rfl⟩
    | none => exact absurd ⟨hp, hio⟩ h

/-- A job that loses its handles leaves them behind, since the tables only grow. -/
theorem NoOrphans.orphans {w w' : World EffectExecutor} {id : JobId} (h : w.NoOrphans)
    (hp : ∀ p ∈ w.exec.processes.keys, w'.processOf id ≠ some p)
    (hio : ∀ io ∈ w.exec.drains.keys, w'.ioOf id ≠ some io) (hequipped : ¬ w.Unequipped id)
    (hps : ∀ j, j ≠ id → w'.processOf j = w.processOf j)
    (hios : ∀ j, j ≠ id → w'.ioOf j = w.ioOf j)
    (hkeysp : w.exec.processes.keys ⊆ w'.exec.processes.keys)
    (hkeysio : w.exec.drains.keys ⊆ w'.exec.drains.keys) : w'.Orphans := by
  rcases equipped_of_not hequipped with ⟨p, hold⟩ | ⟨io, hold⟩
  · exact Or.inl (h.processes.drop hold (hp p (h.processes.known id p hold)) hps hkeysp)
  · exact Or.inr (h.drains.drop hold (hio io (h.drains.known id io hold)) hios hkeysio)

variable {w : World EffectExecutor} {a : Action} {o : PopLog}

/-- When a record is cleared, the condition is that there was nothing in it. -/
theorem keepsHandles_cleared (ha : a.isFinish = true ∨ a.isAdmission = true) :
    w.KeepsHandles (.pop a o) ↔ w.Unequipped a.jobId := by
  cases a with
  | finished | admitted => exact Iff.rfl
  | _ => simp [Action.isFinish, Action.isAdmission] at ha

/-- Where nothing is cleared and nothing is started, there is no condition. -/
theorem keepsHandles_kept (hf : a.isFinish = false) (ha : a.isAdmission = false)
    (hs : a.isStart = true → ∃ err, o.events = [.processSpawnFailed a.jobId err]) :
    w.KeepsHandles (.pop a o) := by
  cases a with
  | finished => cases hf
  | admitted => cases ha
  | startProcess id exec policy =>
    intro hok
    have ⟨err, herr⟩ := hs rfl
    exact absurd herr (hok err)
  | _ => trivial

/-- For a start that succeeds, the condition is about the job and its handles. -/
theorem keepsHandles_started {id : JobId} {exec : ExecSpec} {policy : ExecPolicy}
    {process : ProcessHandle} {io : IoHandle} (hev : o.events = [.processStarted id process io]) :
    w.KeepsHandles (.pop (.startProcess id exec policy) o) ↔
      (w.state.jobs.get id).isSome = true ∧ w.Unequipped id ∧ w.FreshHandles := by
  refine ⟨fun h => h fun err herr => ?_, fun h _ => h⟩
  rw [hev, List.cons.injEq] at herr
  cases herr.1

end World

/-- The step lemma. -/
theorem Loop.KeepStep.noOrphans {c c' : Loop EffectExecutor} {l : Label}
    (hstep : Loop.KeepStep c l c') (h : c.world.NoOrphans) : c'.world.NoOrphans := by
  have ⟨hs, hkeeps⟩ := hstep
  cases hs with
  | feed _ _ hready =>
    rw [Loop.feed_world c _ hready]
    exact h
  | @pop a o _ hpop =>
    have ⟨hown, hps, hios⟩ := (Loop.Step.pop hpop).handleStep
    cases hown with
    | recorded ha hev _ hissues hp hio =>
      rw [ha] at hkeeps
      have ⟨_, hfree, hfresh⟩ := (World.keepsHandles_started hev).mp hkeeps
      constructor
      · rw [hissues.processes]
        exact h.processes.give hfresh.1 hfree.1 hp hps
      · rw [hissues.drains]
        exact h.drains.give hfresh.2 hfree.2 hio hios
    | unclaimed ha hev hnone =>
      rw [ha] at hkeeps
      have hthere := ((World.keepsHandles_started hev).mp hkeeps).1
      rw [hnone] at hthere
      cases hthere
    | cleared ha htables hfree =>
      have hbefore := (World.keepsHandles_cleared ha).mp hkeeps
      constructor
      · exact h.processes.congr (hfree.1.trans hbefore.1.symm) hps htables.processes
      · exact h.drains.congr (hfree.2.trans hbefore.2.symm) hios htables.drains
    | kept _ _ _ htables hp hio =>
      constructor
      · exact h.processes.congr hp hps htables.processes
      · exact h.drains.congr hio hios htables.drains

/-! ## Steps that lose one -/

section Lost

variable {c c' : Loop EffectExecutor} {l : Label}

/-- An orphan stays one, as long as the handles that are given out are new. -/
theorem World.Orphans.step (h : c.world.Orphans) (hstep : Loop.Step executor c l c')
    (hfresh : issuedIn [l] ≠ [] → c.world.FreshHandles) : c'.world.Orphans := by
  cases hstep with
  | feed _ _ hready =>
    rw [Loop.feed_world c _ hready]
    exact h
  | @pop a o _ hpop =>
    have ⟨hown, hps, hios⟩ := (Loop.Step.pop hpop).handleStep
    have hissued : ∀ process io, o.events = [.processStarted a.jobId process io] →
        c.world.FreshHandles := by
      intro process io hev
      apply hfresh
      rw [issuedIn_pop, hev]
      exact List.cons_ne_nil _ _
    cases hown with
    | recorded _ hev _ hissues hp hio =>
      -- the job takes up new handles, which the orphan is not
      have hnew := hissued _ _ hev
      rcases h with h | h
      · refine Or.inl (h.stays ?_ (fun g hg => Or.inr ?_) hps)
        · rw [hissues.processes]
          exact Finset.subset_insert _ _
        · rw [hp, Option.some.injEq] at hg
          exact hg ▸ hnew.1
      · refine Or.inr (h.stays ?_ (fun g hg => Or.inr ?_) hios)
        · rw [hissues.drains]
          exact Finset.subset_insert _ _
        · rw [hio, Option.some.injEq] at hg
          exact hg ▸ hnew.2
    | unclaimed _ _ _ hissues hp hio =>
      rcases h with h | h
      · refine Or.inl (h.stays ?_ (fun g hg => Or.inl (hp ▸ hg)) hps)
        rw [hissues.processes]
        exact Finset.subset_insert _ _
      · refine Or.inr (h.stays ?_ (fun g hg => Or.inl (hio ▸ hg)) hios)
        rw [hissues.drains]
        exact Finset.subset_insert _ _
    | cleared _ htables hfree =>
      rcases h with h | h
      · refine Or.inl (h.stays htables.processes.ge (fun g hg => ?_) hps)
        rw [hfree.1] at hg
        cases hg
      · refine Or.inr (h.stays htables.drains.ge (fun g hg => ?_) hios)
        rw [hfree.2] at hg
        cases hg
    | kept _ _ _ htables hp hio =>
      rcases h with h | h
      · exact Or.inl (h.stays htables.processes.ge (fun g hg => Or.inl (hp ▸ hg)) hps)
      · exact Or.inr (h.stays htables.drains.ge (fun g hg => Or.inl (hio ▸ hg)) hios)

/-- A step that does not meet the condition leaves an orphan. -/
theorem Loop.Step.orphans (hstep : Loop.Step executor c l c') (h : c.world.NoOrphans)
    (hfresh : issuedIn [l] ≠ [] → c.world.FreshHandles) (hlost : ¬ c.world.KeepsHandles l) :
    c'.world.Orphans := by
  cases hstep with
  | feed => exact absurd trivial hlost
  | @pop a o _ hpop =>
    have ⟨hown, hps, hios⟩ := (Loop.Step.pop hpop).handleStep
    have hissued : ∀ process io, o.events = [.processStarted a.jobId process io] →
        c.world.FreshHandles := by
      intro process io hev
      apply hfresh
      rw [issuedIn_pop, hev]
      exact List.cons_ne_nil _ _
    cases hown with
    | recorded ha hev hthere hissues hp hio =>
      -- a start over the handles of an earlier one
      have hnew := hissued _ _ hev
      rw [ha, World.keepsHandles_started hev] at hlost
      refine h.orphans ?_ ?_ (fun hfree => hlost ⟨hthere, hfree, hnew⟩) hps hios ?_ ?_
      · intro p hmem heq
        rw [hp, Option.some.injEq] at heq
        exact hnew.1 (heq ▸ hmem)
      · intro io hmem heq
        rw [hio, Option.some.injEq] at heq
        exact hnew.2 (heq ▸ hmem)
      · rw [hissues.processes]
        exact Finset.subset_insert _ _
      · rw [hissues.drains]
        exact Finset.subset_insert _ _
    | unclaimed _ hev _ hissues hp _ =>
      -- a start for a job that is not there
      have hnew := hissued _ _ hev
      left
      rw [hissues.processes]
      exact h.processes.unclaimed hnew.1 hp hps
    | cleared ha htables hfree =>
      -- a job with handles finishes, or is admitted again
      rw [World.keepsHandles_cleared ha] at hlost
      refine h.orphans ?_ ?_ hlost hps hios htables.processes.ge htables.drains.ge
      · intro p _ heq
        rw [hfree.1] at heq
        cases heq
      · intro io _ heq
        rw [hfree.2] at heq
        cases heq
    | kept hf ha hs => exact absurd (World.keepsHandles_kept hf ha hs) hlost

end Lost

/-! ## Whole runs -/

namespace EffectExecutor

/-- What is in the tables was put there under the handles of a start. -/
structure TablesIssued (past : List Label) (x : EffectExecutor) : Prop where
  processes : ∀ p ∈ x.processes.keys, ∃ e ∈ issuedIn past, e.2.1 = p
  drains : ∀ io ∈ x.drains.keys, ∃ e ∈ issuedIn past, e.2.2 = io

theorem TablesIssued.step {past : List Label} {c c' : Loop EffectExecutor} {l : Label}
    (h : TablesIssued past c.world.exec) (hstep : Loop.Step executor c l c') :
    TablesIssued (past ++ [l]) c'.world.exec := by
  have hold : ∀ e ∈ issuedIn past, e ∈ issuedIn (past ++ [l]) := by
    intro e he
    rw [issuedIn_append]
    exact List.mem_append_left _ he
  have hp : ∀ p ∈ c.world.exec.processes.keys, ∃ e ∈ issuedIn (past ++ [l]), e.2.1 = p := by
    intro p hp
    have ⟨e, he, hep⟩ := h.processes p hp
    exact ⟨e, hold e he, hep⟩
  have hio : ∀ io ∈ c.world.exec.drains.keys, ∃ e ∈ issuedIn (past ++ [l]), e.2.2 = io := by
    intro io hio
    have ⟨e, he, heio⟩ := h.drains io hio
    exact ⟨e, hold e he, heio⟩
  cases hstep with
  | feed _ _ hready =>
    rw [Loop.feed_world c _ hready]
    exact ⟨hp, hio⟩
  | @pop a o _ hpop =>
    have ⟨_, _, _, _, hw⟩ := pop_iff.mp hpop
    rcases hw.reacts.tables with ⟨id, hev, hissues⟩ | ⟨_, htables⟩
    · have hnew : (id, ⟨c.world.exec.nextHandle⟩, ⟨c.world.exec.nextHandle + 1⟩) ∈
          issuedIn (past ++ [.pop a o]) := by
        rw [issuedIn_append, issuedIn_pop, show o.events = _ from hev]
        exact List.mem_append_right _ List.mem_cons_self
      constructor
      · rw [hissues.processes]
        intro p hmem
        rcases Finset.mem_insert.mp hmem with heq | hmem
        · exact ⟨_, hnew, heq.symm⟩
        · exact hp p hmem
      · rw [hissues.drains]
        intro io hmem
        rcases Finset.mem_insert.mp hmem with heq | hmem
        · exact ⟨_, hnew, heq.symm⟩
        · exact hio io hmem
    · constructor
      · rw [htables.processes]
        exact hp
      · rw [htables.drains]
        exact hio

/-- Before the counter wraps around, the next handles are not in use. -/
theorem CountsHandles.fresh {past : List Label} {w : World EffectExecutor} {n : ℕ}
    (h : CountsHandles past w.exec) (htables : TablesIssued past w.exec)
    (hn : (issuedIn past).length < n) (hmany : 2 * n < 2 ^ 64) : w.FreshHandles := by
  have hnext := h.next
  have hsucc : (w.exec.nextHandle + 1).toNat = w.exec.nextHandle.toNat + 1 := by
    rw [UInt64.toNat_add]
    exact Nat.mod_eq_of_lt (by rw [hnext]; show _ + 1 < 2 ^ 64; omega)
  -- all handles in the tables are below the counter
  constructor
  · intro hmem
    have ⟨e, he, heq⟩ := htables.processes _ hmem
    have hlt := (h.below e he).1
    rw [heq] at hlt
    exact Nat.lt_irrefl _ hlt
  · intro hmem
    have ⟨e, he, heq⟩ := htables.drains _ hmem
    have hlt := (h.below e he).2
    rw [heq] at hlt
    change (w.exec.nextHandle + 1).toNat < w.exec.nextHandle.toNat at hlt
    omega

end EffectExecutor

/-- The run so far lost no handle, or there is an orphan. -/
structure Accounting (start : Loop EffectExecutor) (past : List Label)
    (c : Loop EffectExecutor) : Prop where
  counts : EffectExecutor.CountsHandles past c.world.exec
  tables : EffectExecutor.TablesIssued past c.world.exec
  kept : Run Loop.KeepStep start past c ∧ c.world.NoOrphans ∨ c.world.Orphans

theorem Accounting.step {start c c' : Loop EffectExecutor} {past : List Label} {l : Label}
    (h : 2 * (issuedIn past).length < 2 ^ 64 → Accounting start past c)
    (hstep : Loop.Step executor c l c') (hmany : 2 * (issuedIn (past ++ [l])).length < 2 ^ 64) :
    Accounting start (past ++ [l]) c' := by
  have hsplit :
      (issuedIn (past ++ [l])).length = (issuedIn past).length + (issuedIn [l]).length := by
    rw [issuedIn_append, List.length_append]
  have ⟨hcounts, htables, hkept⟩ := h (by omega)
  have hfresh : issuedIn [l] ≠ [] → c.world.FreshHandles := by
    intro hne
    have hpos := List.length_pos_of_ne_nil hne
    exact hcounts.fresh htables (by omega) hmany
  refine ⟨EffectExecutor.CountsHandles.step (fun _ => hcounts) hstep hmany, htables.step hstep, ?_⟩
  -- once there is an orphan, no later step matters
  rcases hkept with ⟨hrun, hno⟩ | ho
  · by_cases hkeeps : c.world.KeepsHandles l
    · have hk : Loop.KeepStep c l c' := ⟨hstep, hkeeps⟩
      exact Or.inl ⟨hrun.append (.single hk), hk.noOrphans hno⟩
    · exact Or.inr (hstep.orphans hno hfresh hkeeps)
  · exact Or.inr (ho.step hstep hfresh)

theorem noOrphans_init (maxJobs : ℕ) : (Loop.init maxJobs EffectExecutor.new).world.NoOrphans :=
  ⟨.empty fun _ => rfl, .empty fun _ => rfl⟩

theorem Accounting.run {maxJobs : ℕ} {t : List Label} {c : Loop EffectExecutor}
    (hrun : Run (Loop.Step executor) (.init maxJobs .new) t c)
    (hmany : 2 * (issuedIn t).length < 2 ^ 64) : Accounting (.init maxJobs .new) t c := by
  let start : Loop EffectExecutor := .init maxJobs .new
  let accounted : List Label → Loop EffectExecutor → Prop := fun past c =>
    2 * (issuedIn past).length < 2 ^ 64 → Accounting start past c
  have hinit : accounted [] start := by
    intro hnone
    refine ⟨.run (.nil start) hnone, ⟨?_, ?_⟩, Or.inl ⟨.nil start, noOrphans_init maxJobs⟩⟩
    · intro p hp
      exact absurd hp (Finset.notMem_empty p)
    · intro io hio
      exact absurd hio (Finset.notMem_empty io)
  have hstep : ∀ past c l c', accounted past c → Loop.Step executor c l c' →
      accounted (past ++ [l]) c' := fun _ _ _ _ h hs => Accounting.step h hs
  exact hrun.invariant_trace [] hstep hinit hmany

/-- In every state that is reached without losing a handle, the tables of the executor and the
records of the jobs agree; and before the counter of handles wraps around, in no other. -/
theorem no_orphan_handles {maxJobs : ℕ} {t : List Label} {c : Loop EffectExecutor}
    (hrun : Run (Loop.Step executor) (.init maxJobs .new) t c) :
    (Run Loop.KeepStep (.init maxJobs .new) t c → c.world.NoOrphans) ∧
      (2 * (issuedIn t).length < 2 ^ 64 → c.world.NoOrphans →
        Run Loop.KeepStep (.init maxJobs .new) t c) := by
  constructor
  · intro hkeep
    let accounted : Loop EffectExecutor → Prop := fun c => c.world.NoOrphans
    have hstep : ∀ c l c', accounted c → Loop.KeepStep c l c' → accounted c' :=
      fun _ _ _ h hs => hs.noOrphans h
    have hc : accounted c := Run.invariant hstep hkeep (noOrphans_init maxJobs)
    exact hc
  · intro hmany hno
    rcases (Accounting.run hrun hmany).kept with ⟨hkeep, _⟩ | ho
    · exact hkeep
    · exact absurd ho hno.not_orphans

/-! ## Distinct submissions -/

/-- A job that has not been started has no handles. -/
theorem Loop.unequipped_of_unstarted {maxJobs : ℕ} {t : List Label} {c : Loop EffectExecutor}
    {id : JobId} (hrun : Run (Loop.Step executor) (.init maxJobs .new) t c)
    (hs : (startsOf id t).length = 0) : c.world.Unequipped id := by
  have hnone : (issuedIn t).countP (fun e => e.1 == id) = 0 := by
    have := issued_le_starts hrun id
    omega
  unfold World.Unequipped World.processOf World.ioOf
  cases hj : c.world.state.jobs.get id with
  | none => exact ⟨rfl, rfl⟩
  | some job =>
    rcases OwnHandles.run hrun id rfl job hj with hfree | ⟨process, io, _, _, hmem⟩
    · exact hfree
    · rw [List.countP_eq_zero] at hnone
      exact absurd (beq_self_eq_true id) (hnone _ hmem)

/-- When an action that launches a job is popped, the job has not been started. -/
theorem Loop.unstarted_of_launch {maxJobs : ℕ} {t : List Label} {c : Loop EffectExecutor}
    {a : Action} {rest : List Action} (hrun : Run (Loop.Step executor) (.init maxJobs .new) t c)
    (hids : (submitted t).Nodup) (hq : c.queue = a :: rest)
    (ha : a.isWaiting = true ∨ a.isStart = true) : (startsOf a.jobId t).length = 0 := by
  have hfed : (submitted t).count a.jobId ≤ 1 := List.nodup_iff_count_le_one.mp hids a.jobId
  have hlaunch := Launch.run (run_own hrun a.jobId) rfl rfl hfed
  unfold Loop.own at hlaunch
  rw [hq, ownPart_cons_self rfl] at hlaunch
  exact hlaunch.alone hfed ha

/-- With distinct submissions, only a `Finished` can lose a handle. -/
theorem Loop.Step.keepsHandles {maxJobs : ℕ} {past : List Label} {c c' : Loop EffectExecutor}
    {l : Label} (hrun : Run (Loop.Step executor) (.init maxJobs .new) past c)
    (hstep : Loop.Step executor c l c') (hids : (submitted past).Nodup)
    (hmany : 2 * (issuedIn (past ++ [l])).length < 2 ^ 64)
    (hfinish : ∀ id result o, l = .pop (.finished id result) o → c.world.Unequipped id) :
    c.world.KeepsHandles l := by
  cases hstep with
  | feed => trivial
  | @pop a o _ hpop =>
    have ⟨rest, _, hq, _, hw⟩ := pop_iff.mp hpop
    cases a with
    | finished id result => exact hfinish id result o rfl
    | admitted id owner exec policy =>
      have hs := Loop.unstarted_of_launch hrun hids hq (Or.inl rfl)
      exact Loop.unequipped_of_unstarted hrun hs
    | startProcess id exec policy =>
      intro hok
      have hs := Loop.unstarted_of_launch hrun hids hq (Or.inr rfl)
      refine ⟨?_, Loop.unequipped_of_unstarted hrun hs, ?_⟩
      · -- a start is queued only for a job that was admitted
        have hfed : (submitted past).count id ≤ 1 := List.nodup_iff_count_le_one.mp hids id
        have hidle := (Ended.run hrun hfed).orderly.idle hs
        apply hidle.2.2
        unfold Loop.own
        rw [hq]
        show 0 < (ownPart Action.jobId id (.startProcess id exec policy :: rest)).countP
          Action.isStart
        have hid : (Action.startProcess id exec policy).jobId = id := rfl
        rw [ownPart_cons_self hid, List.countP_cons_of_pos rfl]
        omega
      · have ⟨hcounts, htables, _⟩ := Accounting.run hrun (by
          rw [issuedIn_append, List.length_append] at hmany
          omega)
        have hissued : 0 < (issuedIn [.pop (.startProcess id exec policy) o]).length := by
          rw [issuedIn_pop]
          have ⟨hown, _⟩ := (Loop.Step.pop hpop).handleStep
          cases hown with
          | recorded _ hev | unclaimed _ hev =>
            rw [show o.events = _ from hev]
            exact Nat.one_pos
          | cleared ha => rcases ha with ha | ha <;> cases ha
          | kept _ _ hfailed =>
            have ⟨err, herr⟩ := hfailed rfl
            exact absurd herr (hok err)
        rw [issuedIn_append, List.length_append] at hmany
        exact hcounts.fresh htables (by omega) hmany
    | _ => trivial

/-- A run of distinct submissions in which no `Finished` is popped loses no handle. -/
theorem Loop.keeps_of_unfinished {maxJobs : ℕ} {t : List Label} {c : Loop EffectExecutor}
    (hrun : Run (Loop.Step executor) (.init maxJobs .new) t c) (hids : (submitted t).Nodup)
    (hmany : 2 * (issuedIn t).length < 2 ^ 64)
    (ht : ∀ l ∈ Label.pops t, l.1.isFinish = false) :
    Run Loop.KeepStep (.init maxJobs .new) t c := by
  let start : Loop EffectExecutor := .init maxJobs .new
  let kept : List Label → Loop EffectExecutor → Prop := fun past c =>
    Run (Loop.Step executor) start past c ∧ ((submitted past).Nodup →
      2 * (issuedIn past).length < 2 ^ 64 → (∀ l ∈ Label.pops past, l.1.isFinish = false) →
      Run Loop.KeepStep start past c)
  have hstep : ∀ past c l c', kept past c → Loop.Step executor c l c' → kept (past ++ [l]) c' := by
    intro past c l c' ⟨hpast, hkept⟩ hs
    refine ⟨hpast.append (.single hs), fun hids hmany hlabels => ?_⟩
    have hidsp : (submitted past).Nodup := by
      rw [submitted_append] at hids
      exact hids.of_append_left
    have hmanyp : 2 * (issuedIn past).length < 2 ^ 64 := by
      rw [issuedIn_append, List.length_append] at hmany
      omega
    rw [Label.pops_append] at hlabels
    have hlabelsp : ∀ l ∈ Label.pops past, l.1.isFinish = false :=
      fun l hl => hlabels l (List.mem_append_left _ hl)
    refine (hkept hidsp hmanyp hlabelsp).append (.single ⟨hs, hs.keepsHandles hpast hidsp hmany ?_⟩)
    intro id result o hl
    have hunfinished := hlabels (.finished id result, o) (by
      rw [hl]
      exact List.mem_append_right _ List.mem_cons_self)
    cases hunfinished
  have hc : kept t c := hrun.invariant_trace [] hstep ⟨.nil start, fun _ _ _ => .nil start⟩
  exact hc.2 hids hmany ht

namespace EffectExecutor

theorem no_orphan_handles_started : startJob.2.world.NoOrphans :=
  (no_orphan_handles startJob_run).1
    (Loop.keeps_of_unfinished startJob_run (by decide) (by decide) (by decide))

/-- The handles of a job that has finished are in the tables, and in no record. -/
theorem finished_job_leaves_handles :
    ∃ t c, Run (Loop.Step executor) (.init 1 .new) t c ∧ (submitted t).Nodup ∧ c.queue = [] ∧
      (c.world.state.results.get 1).isSome = true ∧ (c.world.exec.processes.get ⟨1⟩).isSome = true ∧
      (c.world.exec.drains.get ⟨2⟩).isSome = true ∧ ¬ c.world.NoOrphans := by
  have hrun : Run (Loop.Step executor) startJob.2 _ finishedJob.2 :=
    Loop.batch_run executor _ (by decide) (by decide)
  have hkeys : finishedJob.2.world.state.jobs.keys = ∅ := by decide
  refine ⟨_, finishedJob.2, startJob_run.append hrun, by decide, by decide, by decide, by decide,
    by decide, ?_⟩
  intro hno
  have hmem : (⟨1⟩ : ProcessHandle) ∈ finishedJob.2.world.exec.processes.keys := by decide
  have ⟨id, hid, _⟩ := hno.processes.held _ hmem
  have ⟨job, hjob, _⟩ := Option.bind_eq_some_iff.mp hid
  have hin : id ∈ finishedJob.2.world.state.jobs.keys := HashMap.mem_keys.mpr ⟨job, hjob⟩
  rw [hkeys] at hin
  exact Finset.notMem_empty id hin

end EffectExecutor
end CoreShift
