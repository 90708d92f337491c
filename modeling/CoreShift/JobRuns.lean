import CoreShift.JobTheorems

/-!
# Runs of the loop, seen from one job

`JobStep id` is the job machine with its own queue: its front action reacts, a pop of
another job passes by, a batch of inputs leaves it what concerns it. `Loop.Step.own` projects
every step of the loop onto every job, label by label, so an invariant of one job's entries
and queue is proved on the small machine and holds along every run of the loop.
-/

namespace CoreShift

open Utils WorkQueue

variable {σ α : Type}

/-! ## The answers a pop can show -/

/-- The effects of a pop and the events that answered them fit together. -/
def PopLog.Answered (o : PopLog) : Prop :=
  (o.effects = [] ∧ o.events = []) ∨
    ∃ e ev, o.effects = [e] ∧ o.events = ev.toList ∧ Answers e ev

theorem World.Reacts.answered {E : Executor σ α} {w w' : World σ} {a : Action} {o : PopLog}
    {out : List Action} (h : World.Reacts E w a o out w') : o.Answered := by
  rcases h.applied with ⟨heffs, hevs, -⟩ | ⟨e, ans, heffs, hevs, -⟩
  · exact Or.inl ⟨heffs, hevs⟩
  · exact Or.inr ⟨e, _, heffs, hevs, E.answers w.exec e ans⟩

/-- A start is answered by one of its two events. -/
theorem PopLog.Answered.startProcess {o : PopLog} (h : o.Answered) {id : JobId}
    {exec : ExecSpec} {policy : ExecPolicy} (heffs : o.effects = [.startProcess id exec policy]) :
    (∃ process io, o.events = [.processStarted id process io]) ∨
      ∃ err, o.events = [.processSpawnFailed id err] := by
  rcases h with ⟨hnil, -⟩ | ⟨e, ev, he, hevs, hans⟩
  · rw [heffs] at hnil
    cases hnil
  · rw [heffs, List.cons.injEq] at he
    rw [← he.1] at hans
    rcases hans with ⟨process, io, rfl⟩ | ⟨err, rfl⟩
    · exact Or.inl ⟨process, io, hevs⟩
    · exact Or.inr ⟨err, hevs⟩

namespace JobView

/-- The reaction that a pop shows, for some value of the admission counter. -/
def reactTo (v : JobView) (adm : AdmissionControlModule) (a : Action) (o : PopLog) : Reaction :=
  v.react ⟨o.now, adm, o.events.head?⟩ a

end JobView

/-! ## What a pop of the job's own can do -/

/-- The actions that are handed on or resolved, and change nothing in the core. -/
def Action.isQuiet : Action → Bool
  | .rejected .. | .started .. | .controlled .. | .queryResult .. | .performIo ..
  | .registerInterest .. | .removeInterest .. | .emitLog .. => true
  | _ => false

/-- The reactions of a job in the view `v` to its own action, case by case: the view
afterwards and the follow-ups. Invariants of a job are proved by cases on this relation. -/
inductive JobView.Outcome (id : JobId) (v : JobView) (o : PopLog) :
    Action → JobView → List Action → Prop
  | refused {owner exec policy err} : o.effects = [] →
      Outcome id v o (.submit id owner exec policy) v
        [.rejected id, .emitLog .error (.error id err)]
  | letIn {owner exec policy} : o.effects = [] →
      Outcome id v o (.submit id owner exec policy) v [.admitted id owner exec policy]
  | admitted {owner exec policy} : o.effects = [] →
      Outcome id v o (.admitted id owner exec policy)
        (v.onAdmitted o.now id owner exec policy).view
        [.startProcess id exec policy, .emitLog .info (.submit id)]
  | started {exec policy job process io} : v.job = some job →
      o.effects = [.startProcess id exec policy] → o.events = [.processStarted id process io] →
      Outcome id v o (.startProcess id exec policy)
        { v with
          job := some { job with process := some process, io := some io }
          lifecycle := some .running }
        (.started id :: JobView.interests id)
  | startedAbsent {exec policy process io} : v.job = none →
      o.effects = [.startProcess id exec policy] → o.events = [.processStarted id process io] →
      Outcome id v o (.startProcess id exec policy) v (JobView.interests id)
  | startFailed {exec policy err} : o.effects = [.startProcess id exec policy] →
      o.events = [.processSpawnFailed id err] →
      Outcome id v o (.startProcess id exec policy) { v with lifecycle := some .finished }
        [.rejected id, .emitLog .error (.error id err)]
  | stopped {job} : v.job = some job →
      o.effects = JobView.killEffects id .gracefulStop job →
      Outcome id v o (.signalProcess id .gracefulStop)
        { v with job := some { job with timedOut := true }, lifecycle := some .terminating } []
  | killed {job} : v.job = some job → o.effects = JobView.killEffects id .forceKill job →
      Outcome id v o (.signalProcess id .forceKill) { v with lifecycle := some .killed } []
  | signalAbsent {signal} : v.job = none → o.effects = [] →
      Outcome id v o (.signalProcess id signal) v []
  | exited {job process status} : v.job = some job → job.process = some process →
      o.effects = [.pollProcess id process] → o.events = [.processExited id status] →
      Outcome id v o (.pollProcess id) v [.finished id (.ok ⟨status, [], [], job.timedOut⟩)]
  | running {job process} : v.job = some job → job.process = some process →
      o.effects = [.pollProcess id process] → o.events = [] →
      Outcome id v o (.pollProcess id) v []
  | unpolled : (∀ job, v.job = some job → job.process = none) → o.effects = [] →
      Outcome id v o (.pollProcess id) v []
  | finished {result job} : v.job = some job → o.effects = [] →
      Outcome id v o (.finished id result)
        { v with job := none, timer := none, stored := some ⟨result, job.owner, o.now⟩ }
        [.emitLog .info (.exit id (JobView.statusOf result))]
  | finishedAbsent {result} : v.job = none → o.effects = [] →
      Outcome id v o (.finished id result) { v with timer := none } []
  | queried {res} : v.stored = some res → o.effects = [] →
      Outcome id v o (.query id) { v with stored := none }
        [.queryResult id (some ⟨id, res.result⟩)]
  | queriedNone : v.stored = none → o.effects = [] →
      Outcome id v o (.query id) v [.queryResult id none]
  | controlled {signal} : v.signalable = true → o.effects = [] →
      Outcome id v o (.control id signal) v [.signalProcess id signal, .controlled id]
  | timedOut : v.signalable = true → o.effects = [] →
      Outcome id v o (.timeoutReached id) v [.signalProcess id .gracefulStop]
  | graceOver : v.signalable = true → o.effects = [] →
      Outcome id v o (.killDeadlineReached id) v [.signalProcess id .forceKill]
  | controlDropped {signal} : v.signalable = false → o.effects = [] →
      Outcome id v o (.control id signal) v []
  | timeoutDropped : v.signalable = false → o.effects = [] →
      Outcome id v o (.timeoutReached id) v []
  | graceDropped : v.signalable = false → o.effects = [] →
      Outcome id v o (.killDeadlineReached id) v []
  | quiet {a} : a.isQuiet = true → Outcome id v o a v []

namespace JobView

/-- A job can be signalled if it is there, has a process and was not asked to stop. -/
theorem signalable_iff {v : JobView} :
    v.signalable = true ↔ ∃ job, v.job = some job ∧ job.process.isSome ∧ job.timedOut = false := by
  unfold signalable
  cases v.job with
  | none => simp
  | some job => simp

/-- An exit is the only answer to a poll. -/
theorem Answered.pollProcess {o : PopLog} (h : o.Answered) {id : JobId}
    {process : ProcessHandle} (heffs : o.effects = [.pollProcess id process]) :
    o.events = [] ∨ ∃ status, o.events = [.processExited id status] := by
  rcases h with ⟨hnil, -⟩ | ⟨e, ev, he, hevs, hans⟩
  · rw [heffs] at hnil
    cases hnil
  · rw [heffs, List.cons.injEq] at he
    rw [← he.1] at hans
    rcases hans with rfl | ⟨status, rfl⟩
    · exact Or.inl hevs
    · exact Or.inr ⟨status, hevs⟩

/-- The reactions are the outcomes. -/
theorem reactTo_outcome (v : JobView) (adm : AdmissionControlModule) (a : Action) (o : PopLog)
    (hans : o.Answered) (heffs : o.effects = (v.reactTo adm a o).effects) :
    Outcome a.jobId v o a (v.reactTo adm a o).view (v.reactTo adm a o).out := by
  unfold reactTo at heffs ⊢
  cases a with
  | submit id owner exec policy =>
    unfold react AdmissionControlModule.handle at heffs ⊢
    dsimp only at heffs ⊢
    split
    · exact .refused heffs
    · exact .letIn heffs
  | admitted id owner exec policy => exact .admitted heffs
  | startProcess id exec policy =>
    have hstart : o.effects = [.startProcess id exec policy] := by
      rw [heffs]
      unfold react onStartProcess
      dsimp only
      split
      · split <;> rfl
      · rfl
      · rfl
    rcases hans.startProcess hstart with ⟨process, io, hev⟩ | ⟨err, hev⟩
    · cases hjob : v.job with
      | none =>
        simp only [react, onStartProcess, hev, List.head?_cons, hjob]
        exact .startedAbsent hjob hstart hev
      | some job =>
        simp only [react, onStartProcess, hev, List.head?_cons, hjob]
        exact .started hjob hstart hev
    · simp only [react, onStartProcess, hev, List.head?_cons]
      exact .startFailed hstart hev
  | signalProcess id signal =>
    cases hjob : v.job with
    | none =>
      simp only [react, onSignalProcess, hjob] at heffs ⊢
      exact .signalAbsent hjob heffs
    | some job =>
      cases signal with
      | gracefulStop =>
        simp only [react, onSignalProcess, hjob] at heffs ⊢
        exact .stopped hjob heffs
      | forceKill =>
        simp only [react, onSignalProcess, hjob] at heffs ⊢
        have h : Outcome id v o (.signalProcess id .forceKill)
            { v with lifecycle := some .killed } [] := .killed hjob heffs
        rwa [hjob] at h
  | pollProcess id =>
    cases hjob : v.job with
    | none =>
      simp only [react, onPollProcess, hjob] at heffs ⊢
      exact .unpolled (fun job hj => by rw [hjob] at hj; cases hj) heffs
    | some job =>
      cases hproc : job.process with
      | none =>
        simp only [react, onPollProcess, hjob, hproc] at heffs ⊢
        refine .unpolled ?_ heffs
        intro job' hj
        rw [hjob, Option.some.injEq] at hj
        rw [← hj, hproc]
      | some process =>
        have hpoll : o.effects = [.pollProcess id process] := by
          rw [heffs]
          simp only [react, onPollProcess, hjob, hproc]
          split <;> rfl
        rcases Answered.pollProcess hans hpoll with hev | ⟨status, hev⟩
        · simp only [react, onPollProcess, hjob, hproc, hev, List.head?_nil]
          exact .running hjob hproc hpoll hev
        · simp only [react, onPollProcess, hjob, hproc, hev, List.head?_cons]
          exact .exited hjob hproc hpoll hev
  | finished id result =>
    cases hjob : v.job with
    | none =>
      simp only [react, onFinished, hjob] at heffs ⊢
      have h : Outcome id v o (.finished id result) { v with timer := none } [] :=
        .finishedAbsent hjob heffs
      rwa [hjob] at h
    | some job =>
      simp only [react, onFinished, hjob] at heffs ⊢
      exact .finished hjob heffs
  | query id =>
    cases hres : v.stored with
    | none =>
      simp only [react, onQuery, hres] at heffs ⊢
      exact .queriedNone hres heffs
    | some res =>
      simp only [react, onQuery, hres] at heffs ⊢
      exact .queried hres heffs
  | control id signal =>
    unfold react at heffs ⊢
    dsimp only at heffs ⊢
    split
    · next hs => exact .controlled hs heffs
    · next hs => exact .controlDropped (Bool.eq_false_iff.mpr hs) heffs
  | timeoutReached id =>
    unfold react at heffs ⊢
    dsimp only at heffs ⊢
    split
    · next hs => exact .timedOut hs heffs
    · next hs => exact .timeoutDropped (Bool.eq_false_iff.mpr hs) heffs
  | killDeadlineReached id =>
    unfold react at heffs ⊢
    dsimp only at heffs ⊢
    split
    · next hs => exact .graceOver hs heffs
    · next hs => exact .graceDropped (Bool.eq_false_iff.mpr hs) heffs
  | emitLog | performIo | registerInterest | removeInterest | rejected | started | controlled
  | queryResult => exact .quiet rfl

/-- The follow-ups concern the same job. -/
theorem Outcome.out_jobId {id : JobId} {v v' : JobView} {o : PopLog} {a : Action}
    {out : List Action} (h : Outcome id v o a v' out) : ∀ b ∈ out, b.jobId = id := by
  cases h <;> simp [interests, Action.jobId, LogEvent.jobId]

end JobView

/-- A pop of the loop has one of the outcomes for the job it is about. -/
theorem World.Reacts.outcome {E : Executor σ α} {w w' : World σ} {a : Action} {o : PopLog}
    {out : List Action} (h : World.Reacts E w a o out w') :
    (w.view a.jobId).Outcome a.jobId o a ((w.view a.jobId).react (w.env o) a).view out := by
  rw [h.out_eq]
  exact JobView.reactTo_outcome (w.view a.jobId) w.dispatcher.admission a o h.answered h.effects_eq

/-! ## The job machine with its queue -/

/-- A step of the loop, as one job sees it. -/
inductive JobStep (id : JobId) :
    Config JobView Action → Label → Config JobView Action → Prop
  | own {v a rest log v₁ out v'} : a.jobId = id → v.Outcome id log a v₁ out → v₁.Evicted v' →
      JobStep id ⟨v, a :: rest⟩ (.pop a log) ⟨v', rest ++ out⟩
  | other {v v' q a log} : a.jobId ≠ id → v.Evicted v' →
      JobStep id ⟨v, q⟩ (.pop a log) ⟨v', q⟩
  | feed {v acts events ready} : (∀ a ∈ acts, a.isInput = true) →
      (∀ a ∈ ready, a = .performIo id) →
      JobStep id ⟨v, []⟩ (.feed acts events) ⟨v, ownPart Action.jobId id acts ++ ready⟩

/-! ## The projection -/

namespace Loop

/-- The entries and the queued actions of one job. -/
def own (c : Loop σ) (id : JobId) : Config JobView Action :=
  ⟨c.world.view id, ownPart Action.jobId id c.queue⟩

/-- Readiness events change nothing and ask for io of jobs only. -/
theorem dispatchEvents_ready (d : Dispatcher) (state : ExecutionState) (events : List Event)
    (hready : ∀ ev ∈ events, ev.isReady = true) :
    (dispatchEvents d state events).dispatcher = d ∧
      (dispatchEvents d state events).state = state ∧
      ∀ a ∈ (dispatchEvents d state events).actions, ∃ id, a = .performIo id := by
  induction events with
  | nil => exact ⟨rfl, rfl, fun a ha => absurd ha List.not_mem_nil⟩
  | cons ev events ih =>
    have htail := ih fun e he => hready e (List.mem_cons_of_mem ev he)
    have hev := hready ev List.mem_cons_self
    cases ev with
    | jobFdReady id readable writable error =>
      refine ⟨htail.1, htail.2.1, ?_⟩
      intro a ha
      rcases List.mem_append.mp ha with ha | ha
      · simp only [Dispatcher.dispatchEvent, IoModule.handleEvent] at ha
        split at ha
        · exact ⟨id, List.mem_singleton.mp ha⟩
        · cases ha
      · exact htail.2.2 a ha
    | processStarted | processSpawnFailed | processExited => cases hev

/-- Feeding inputs leaves the world as it is. -/
theorem feed_world (c : Loop σ) (acts : List Action) {events : List Event}
    (hready : ∀ ev ∈ events, ev.isReady = true) : (c.feed acts events).world = c.world := by
  have h := dispatchEvents_ready c.world.dispatcher c.world.state events hready
  show World.mk _ _ _ = _
  rw [h.1, h.2.1]

/-- Feeding inputs queues them, followed by io of jobs. -/
theorem feed_queue (c : Loop σ) (acts : List Action) {events : List Event}
    (hready : ∀ ev ∈ events, ev.isReady = true) :
    ∃ ready, (c.feed acts events).queue = acts ++ ready ∧
      ∀ a ∈ ready, ∃ id, a = .performIo id :=
  ⟨_, rfl, (dispatchEvents_ready c.world.dispatcher c.world.state events hready).2.2⟩

/-- A step of the loop is a step of every job's own machine, under the same label. -/
theorem Step.own {E : Executor σ α} {c c' : Loop σ} {l : Label} (h : Step E c l c')
    (id : JobId) : JobStep id (c.own id) l (c'.own id) := by
  cases h with
  | @pop a log _ hpop =>
    rcases pop_iff.mp hpop with ⟨rest, out, hq, hq', hstep⟩
    have hr := hstep.reacts
    unfold Loop.own
    rw [hq, hq', ownPart_append]
    by_cases ha : a.jobId = id
    · subst ha
      have hout : ownPart Action.jobId a.jobId out = out := ownPart_self hr.outcome.out_jobId
      rw [ownPart_cons_self rfl, hout]
      exact .own rfl hr.outcome hr.own
    · have hout : ownPart Action.jobId id out = [] := by
        apply ownPart_other
        intro b hb
        rw [hr.outcome.out_jobId b hb]
        exact ha
      rw [ownPart_cons_other ha, hout, List.append_nil]
      exact .other ha (hr.others id (Ne.symm ha))
  | feed hq hacts hready =>
    rcases feed_queue c _ hready with ⟨ready, hqueue, hio⟩
    unfold Loop.own
    rw [feed_world c _ hready, hqueue, hq, ownPart_append]
    refine .feed hacts ?_
    intro a ha
    rcases List.mem_filter.mp ha with ⟨hmem, hid⟩
    rcases hio a hmem with ⟨j, rfl⟩
    rw [decide_eq_true_eq] at hid
    rw [show j = id from hid]

/-- A run of the loop is a run of every job's own machine. -/
theorem run_own {E : Executor σ α} {c c' : Loop σ} {t : List Label}
    (h : Run (Step E) c t c') (id : JobId) : Run (JobStep id) (c.own id) t (c'.own id) := by
  have hrun := h.map (fun c => c.own id) (fun l => l) fun _ _ _ hs => hs.own id
  rwa [List.map_id'] at hrun

end Loop
end CoreShift
