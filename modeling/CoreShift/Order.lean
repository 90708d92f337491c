import CoreShift.JobLimit
import CoreShift.Rejection
import CoreShift.Utils.Pipeline

/-!
# The order in which jobs are served

A submission travels through the queue as `Submit`, `Admitted`, `StartProcess` and `Started`.
The queue is first-in first-out, so that these are stages of a pipeline: the executor is asked to
start the commands that were submitted, unaltered and in the order of their submission, and the
clients are told in the same order.

As long as nothing is polled, no slot is ever given back, and the loop serves the first
`max_jobs` submissions and no other.
-/

namespace CoreShift

open Utils WorkQueue

variable {σ α : Type} {E : Executor σ α}

/-! ## The stages -/

/-- What a submission asks for. -/
structure Task where
  id : JobId
  exec : ExecSpec
  policy : ExecPolicy
deriving DecidableEq, Repr

namespace Action

def submitTask : Action → Option Task
  | .submit id _ exec policy => some ⟨id, exec, policy⟩
  | _ => none

def admittedTask : Action → Option Task
  | .admitted id _ exec policy => some ⟨id, exec, policy⟩
  | _ => none

def startTask : Action → Option Task
  | .startProcess id exec policy => some ⟨id, exec, policy⟩
  | _ => none

/-- The id of a `Started`, which the client is told. -/
def startedId : Action → Option JobId
  | .started id => some id
  | _ => none

def rejectedId : Action → Option JobId
  | .rejected id => some id
  | _ => none

end Action

/-- The command that an effect starts. -/
def Effect.task : Effect → Option Task
  | .startProcess id exec policy => some ⟨id, exec, policy⟩
  | _ => none

/-- The stages up to the start of the process, the last one first. -/
def startStages : List (Action → Option Task) :=
  [Action.startTask, Action.admittedTask, Action.submitTask]

/-- The commands submitted from outside. -/
def tasksSubmitted (t : List Label) : List Task := (Label.fed t).filterMap Action.submitTask

/-- The commands that the executor was asked to start. -/
def tasksStarted (t : List Label) : List Task :=
  ((Label.pops t).flatMap fun l => l.2.effects).filterMap Effect.task

/-- The jobs of which the clients are told that they started. -/
def startsTold (t : List Label) : List JobId :=
  (Label.pops t).filterMap fun l => l.1.startedId

/-- The jobs of which the clients are told that they were refused. -/
def refusalsTold (t : List Label) : List JobId :=
  (Label.pops t).filterMap fun l => l.1.rejectedId

theorem filterMap_pops_append {B : Type} (f : Action → Option B) (t u : List Label) :
    (Label.pops (t ++ u)).filterMap (fun l => f l.1) =
      (Label.pops t).filterMap (fun l => f l.1) ++ (Label.pops u).filterMap fun l => f l.1 := by
  rw [Label.pops_append, List.filterMap_append]

theorem filterMap_pops_pop {B : Type} (f : Action → Option B) (t : List Label) (a : Action)
    (o : PopLog) : (Label.pops (t ++ [.pop a o])).filterMap (fun l => f l.1) =
      (Label.pops t).filterMap (fun l => f l.1) ++ (f a).toList := by
  rw [filterMap_pops_append, Label.pops_pop, filterMap_cons_eq, List.filterMap_nil,
    List.append_nil]

theorem tasksSubmitted_append (t u : List Label) :
    tasksSubmitted (t ++ u) = tasksSubmitted t ++ tasksSubmitted u := by
  rw [tasksSubmitted, Label.fed_append, List.filterMap_append]
  rfl

theorem tasksStarted_append (t u : List Label) :
    tasksStarted (t ++ u) = tasksStarted t ++ tasksStarted u := by
  rw [tasksStarted, Label.pops_append, List.flatMap_append, List.filterMap_append]
  rfl

theorem startsTold_append (t u : List Label) :
    startsTold (t ++ u) = startsTold t ++ startsTold u :=
  filterMap_pops_append Action.startedId t u

theorem refusalsTold_append (t u : List Label) :
    refusalsTold (t ++ u) = refusalsTold t ++ refusalsTold u :=
  filterMap_pops_append Action.rejectedId t u

/-! ## One pop -/

section Pop

variable {id : JobId} {v v' : JobView} {w w' : World σ} {o : PopLog} {a : Action}
  {out : List Action}

theorem JobView.Outcome.start_passes (h : v.Outcome id o a v' out) :
    Passes startStages a out ∧ entering startStages out = [] := by
  cases h <;>
    simp [startStages, Passes, entering, Action.startTask, Action.admittedTask, Action.submitTask,
      JobView.interests]

/-- Every start is the effect of a `StartProcess`. -/
theorem World.Reacts.tasks (h : World.Reacts E w a o out w') :
    o.effects.filterMap Effect.task = a.startTask.toList := by
  rw [h.effects_eq]
  cases a with
  | startProcess id exec policy =>
    unfold JobView.react JobView.onStartProcess
    dsimp only
    split
    · split <;> rfl
    · rfl
    · rfl
  | signalProcess id signal =>
    unfold JobView.react JobView.onSignalProcess JobView.killEffects
    dsimp only
    split
    · split <;> dsimp only <;> split <;> rfl
    · rfl
  | pollProcess id =>
    unfold JobView.react JobView.onPollProcess
    dsimp only
    repeat' split
    all_goals rfl
  | performIo | registerInterest | removeInterest =>
    unfold JobView.react JobView.ioEffects
    dsimp only
    split <;> rfl
  | finished id result =>
    unfold JobView.react JobView.onFinished
    dsimp only
    split <;> rfl
  | query id =>
    unfold JobView.react JobView.onQuery
    dsimp only
    split <;> rfl
  | _ => rfl

/-- A pop adds the start that it is. -/
theorem World.Reacts.tasksStarted_pop (h : World.Reacts E w a o out w') (t : List Label) :
    tasksStarted (t ++ [.pop a o]) = tasksStarted t ++ a.startTask.toList := by
  have hone : tasksStarted [.pop a o] = a.startTask.toList := by
    rw [← h.tasks, tasksStarted, Label.pops_pop, List.flatMap_singleton]
  rw [tasksStarted_append, hone]

theorem startsTold_pop (t : List Label) (a : Action) (o : PopLog) :
    startsTold (t ++ [.pop a o]) = startsTold t ++ a.startedId.toList :=
  filterMap_pops_pop Action.startedId t a o

theorem tasksSubmitted_pop (t : List Label) (a : Action) (o : PopLog) :
    tasksSubmitted (t ++ [.pop a o]) = tasksSubmitted t :=
  (tasksSubmitted_append _ _).trans (List.append_nil _)

/-- What a pop queues for the client was started by the effect of the pop. -/
theorem JobView.Outcome.tells (h : v.Outcome id o a v' out) :
    (out.filterMap Action.startedId).Sublist (a.startTask.toList.map Task.id) := by
  cases h <;> simp [Action.startedId, Action.startTask, JobView.interests]

end Pop

/-- Inputs are in the first stage. -/
theorem Action.input_stages {a : Action} (h : a.isInput = true) :
    a.startTask = none ∧ a.admittedTask = none ∧ a.startedId = none := by
  cases a <;> first | exact ⟨rfl, rfl, rfl⟩ | cases h

/-- The stages of a queue right after it was fed. -/
theorem Loop.feed_stages (c : Loop σ) {acts : List Action} {events : List Event}
    (hacts : ∀ a ∈ acts, a.isInput = true) (hready : ∀ ev ∈ events, ev.isReady = true) :
    (∀ a ∈ (c.feed acts events).queue,
      a.startTask = none ∧ a.admittedTask = none ∧ a.startedId = none) ∧
    (c.feed acts events).queue.filterMap Action.submitTask = acts.filterMap Action.submitTask := by
  rcases Loop.feed_queue c acts hready with ⟨ready, hqueue, hio⟩
  rw [hqueue]
  constructor
  · intro a ha
    rcases List.mem_append.mp ha with ha | ha
    · exact Action.input_stages (hacts a ha)
    · rcases hio a ha with ⟨id, rfl⟩
      exact ⟨rfl, rfl, rfl⟩
  · have hnone : ready.filterMap Action.submitTask = [] := by
      rw [List.filterMap_eq_nil_iff]
      intro a ha
      rcases hio a ha with ⟨id, rfl⟩
      rfl
    rw [List.filterMap_append, hnone, List.append_nil]

/-! ## First come, first served -/

/-- What was started and what is queued for a start, and what was told and what is queued for
the clients, is in the order of the submissions. -/
structure InOrder (past : List Label) (c : Loop σ) : Prop where
  started : (tasksStarted past ++ line startStages c.queue).Sublist (tasksSubmitted past)
  told : (startsTold past ++ c.queue.filterMap Action.startedId).Sublist
    ((tasksStarted past).map Task.id)

theorem InOrder.step {past : List Label} {c c' : Loop σ} {l : Label} (h : InOrder past c)
    (hstep : Loop.Step E c l c') : InOrder (past ++ [l]) c' := by
  cases hstep with
  | @pop a o _ hpop =>
    rcases pop_iff.mp hpop with ⟨rest, out, hq, hq', hreact⟩
    have hr := hreact.reacts
    constructor
    · have hpass := hr.outcome.start_passes
      -- the popped action leaves the line at the front, and nothing overtakes
      have hline : (leaving startStages a ++ line startStages (rest ++ out)).Sublist
          (line startStages (a :: rest) ++ entering startStages out) := line_pop hpass.1
      have hstarted := h.started
      rw [hpass.2, List.append_nil] at hline
      rw [hq] at hstarted
      rw [hr.tasksStarted_pop, tasksSubmitted_pop, hq', List.append_assoc]
      exact ((List.Sublist.refl _).append hline).trans hstarted
    · have htells := hr.outcome.tells
      have hbefore := h.told
      rw [hq, filterMap_cons_eq, ← List.append_assoc] at hbefore
      rw [startsTold_pop, hq', List.filterMap_append, hr.tasksStarted_pop, List.map_append,
        ← List.append_assoc]
      exact hbefore.append htells
  | @feed acts events hq hacts hready =>
    -- a queue that was just fed holds submissions and no later stage of a job
    rcases Loop.feed_stages c hacts hready with ⟨hnone, hsubmits⟩
    have hstarted := h.started
    have htold := h.told
    have hline : line startStages (c.feed acts events).queue =
        (c.feed acts events).queue.filterMap Action.submitTask := by
      show line ([Action.startTask, Action.admittedTask] ++ [Action.submitTask]) _ = _
      apply line_of_first
      intro stage hstage a ha
      rcases List.mem_cons.mp hstage with rfl | hstage
      · exact (hnone a ha).1
      · rw [List.mem_singleton.mp hstage]
        exact (hnone a ha).2.1
    rw [hq] at hstarted htold
    rw [line_empty, List.append_nil] at hstarted
    constructor
    · rw [tasksStarted_append, tasksSubmitted_append, hline, hsubmits]
      show ((tasksStarted past ++ []) ++ _).Sublist (_ ++ (Label.fed [_]).filterMap _)
      rw [List.append_nil, Label.fed_feed]
      exact hstarted.append (List.Sublist.refl _)
    · have hqueue : (c.feed acts events).queue.filterMap Action.startedId = [] :=
        List.filterMap_eq_nil_iff.mpr fun a ha => (hnone a ha).2.2
      rw [startsTold_append, tasksStarted_append, hqueue, List.append_nil]
      show (startsTold past ++ []).Sublist ((tasksStarted past ++ []).map _)
      rw [List.append_nil, List.append_nil]
      rw [List.filterMap_nil, List.append_nil] at htold
      exact htold

theorem InOrder.run {maxJobs : ℕ} {x : σ} {t : List Label} {c : Loop σ}
    (hrun : Run (Loop.Step E) (.init maxJobs x) t c) : InOrder t c := by
  have hinit : InOrder [] (Loop.init maxJobs x) := ⟨List.Sublist.refl _, List.Sublist.refl _⟩
  exact hrun.invariant_trace [] (fun _ _ _ _ h hstep => h.step hstep) hinit

theorem InOrder.tasks {t : List Label} {c : Loop σ} (h : InOrder t c) :
    (tasksStarted t).Sublist (tasksSubmitted t) :=
  (List.sublist_append_left _ _).trans h.started

/-- Whatever is fed to the loop and however the executor answers: the commands that the executor
is asked to start are submitted ones, unaltered and in the order of their submission, each at
most once; and the clients are told of the starts in the same order. -/
theorem starts_in_order {maxJobs : ℕ} {x : σ} {t : List Label} {c : Loop σ}
    (hrun : Run (Loop.Step E) (.init maxJobs x) t c) :
    (tasksStarted t).Sublist (tasksSubmitted t) ∧
      (startsTold t).Sublist ((tasksStarted t).map Task.id) := by
  have h := InOrder.run hrun
  exact ⟨h.tasks, (List.sublist_append_left _ _).trans h.told⟩

namespace EffectExecutor

/-- Three jobs are submitted to a loop that has room for two. -/
noncomputable def crowded : List (Action × PopLog) × Loop EffectExecutor :=
  Loop.batch executor
    [.submit 1 0 .bare (.graceful none), .submit 2 0 .bare (.graceful none),
      .submit 3 0 .bare (.graceful none)]
    (List.replicate 24 (.still 0, .started 100)) (.init 2 .new)

noncomputable def crowdedLabels : List Label :=
  .feed [.submit 1 0 .bare (.graceful none), .submit 2 0 .bare (.graceful none),
    .submit 3 0 .bare (.graceful none)] [] :: Loop.popLabels crowded.1

theorem crowded_run : Run (Loop.Step executor) (.init 2 .new) crowdedLabels crowded.2 :=
  Loop.batch_run executor _ rfl (by decide)

theorem starts_in_order_crowded :
    (tasksStarted crowdedLabels).Sublist (tasksSubmitted crowdedLabels) ∧
      (startsTold crowdedLabels).Sublist ((tasksStarted crowdedLabels).map Task.id) :=
  starts_in_order crowded_run

end EffectExecutor

/-! ## Without polls -/

/-- The submissions that were popped. -/
def tasksHandled (t : List Label) : List Task :=
  (Label.pops t).filterMap fun l => l.1.submitTask

/-- The admissions that were popped. -/
def tasksAdmitted (t : List Label) : List Task :=
  (Label.pops t).filterMap fun l => l.1.admittedTask

theorem tasksHandled_append (t u : List Label) :
    tasksHandled (t ++ u) = tasksHandled t ++ tasksHandled u :=
  filterMap_pops_append Action.submitTask t u

theorem tasksAdmitted_append (t u : List Label) :
    tasksAdmitted (t ++ u) = tasksAdmitted t ++ tasksAdmitted u :=
  filterMap_pops_append Action.admittedTask t u

theorem tasksHandled_pop (t : List Label) (a : Action) (o : PopLog) :
    tasksHandled (t ++ [.pop a o]) = tasksHandled t ++ a.submitTask.toList :=
  filterMap_pops_pop Action.submitTask t a o

theorem tasksAdmitted_pop (t : List Label) (a : Action) (o : PopLog) :
    tasksAdmitted (t ++ [.pop a o]) = tasksAdmitted t ++ a.admittedTask.toList :=
  filterMap_pops_pop Action.admittedTask t a o

/-- One more element in the first `n` elements of a list. -/
theorem take_snoc {A : Type} (n : ℕ) (l : List A) (a : A) :
    (l ++ [a]).take n = l.take n ++ if l.length < n then [a] else [] := by
  rw [List.take_append]
  split
  · next h =>
    have hone : [a].length ≤ n - l.length := by
      rw [List.length_singleton]
      omega
    rw [List.take_of_length_le hone]
  · next h => rw [Nat.sub_eq_zero_of_le (by omega), List.take_zero]

theorem drop_snoc {A : Type} (n : ℕ) (l : List A) (a : A) :
    (l ++ [a]).drop n = l.drop n ++ if l.length < n then [] else [a] := by
  rw [List.drop_append]
  split
  · next h => rw [List.drop_eq_nil_of_le (show [a].length ≤ n - l.length by simp; omega)]
  · next h => rw [Nat.sub_eq_zero_of_le (by omega), List.drop_zero]

section Pop

variable {id : JobId} {v v' : JobView} {w w' : World σ} {o : PopLog} {a : Action}
  {out : List Action}

/-- An admission is always started; what it starts is an admission. -/
theorem JobView.Outcome.admitted_passes (h : v.Outcome id o a v' out) :
    out.filterMap Action.startTask = a.admittedTask.toList := by
  cases h with
  | @quiet a ha => cases a <;> first | rfl | cases ha
  | _ => simp [Action.startTask, Action.admittedTask, JobView.interests]

/-- A submission is admitted if there is a free slot, and nothing else is. -/
theorem World.Reacts.admits (h : World.Reacts E w a o out w') :
    out.filterMap Action.admittedTask = a.submitTask.toList.filter fun _ =>
      w.dispatcher.admission.activeJobs < w.dispatcher.admission.maxJobs := by
  cases hs : a.submitTask with
  | none =>
    have hnone : out.countP Action.isAdmission = 0 := by
      apply h.outcome.no_admission
      cases a <;> first | rfl | cases hs
    rw [Option.toList_none, List.filter_nil, List.filterMap_eq_nil_iff]
    intro b hb
    have hadm := List.countP_eq_zero.mp hnone b hb
    cases b <;> first | rfl | exact absurd rfl hadm
  | some task =>
    cases a with
    | submit id owner exec policy =>
      cases hs
      have hout : out = (w.dispatcher.admission.handle (.submit id owner exec policy)).2 :=
        h.out_eq
      rw [hout]
      unfold AdmissionControlModule.handle
      dsimp only
      split
      · next hfull => simp [Action.admittedTask, Nat.not_lt.mpr hfull]
      · next hfree => simp [Action.admittedTask, Nat.not_le.mp hfree]
    | _ => cases hs

/-- A submission is refused if there is no free slot. -/
theorem World.Reacts.refuses (h : World.Reacts E w a o out w') :
    ((a.submitTask.toList.filter fun _ =>
      ¬ w.dispatcher.admission.activeJobs < w.dispatcher.admission.maxJobs).map Task.id).Sublist
        (out.filterMap Action.rejectedId) := by
  cases a with
  | submit id owner exec policy =>
    have hout : out = (w.dispatcher.admission.handle (.submit id owner exec policy)).2 :=
      h.out_eq
    rw [hout]
    unfold AdmissionControlModule.handle
    dsimp only
    split
    · next hfull => simp [Action.submitTask, Action.rejectedId, Nat.not_lt.mpr hfull]
    · next hfree => simp [Action.submitTask, Nat.not_le.mp hfree]
  | _ => exact List.nil_sublist _

/-- A submission that is admitted takes a slot, and nothing gives one back. -/
theorem World.Reacts.counts (h : World.Reacts E w a o out w') (ha : a.isFinish = false) :
    w'.dispatcher.admission.maxJobs = w.dispatcher.admission.maxJobs ∧
      w'.dispatcher.admission.activeJobs = w.dispatcher.admission.activeJobs +
        (a.submitTask.toList.filter fun _ =>
          w.dispatcher.admission.activeJobs < w.dispatcher.admission.maxJobs).length := by
  rw [h.admission]
  cases a with
  | submit id owner exec policy =>
    unfold AdmissionControlModule.handle
    dsimp only [Action.submitTask, Option.toList_some]
    split
    · next hfull => simp [Nat.not_lt.mpr hfull]
    · next hfree => simp [Nat.not_le.mp hfree]
  | finished => cases ha
  | _ => exact ⟨rfl, rfl⟩

/-- A pop makes a job of an admission; without a `Finished`, it takes none away. -/
theorem World.Reacts.job_iff (h : World.Reacts E w a o out w') (ha : a.isFinish = false)
    (id : JobId) : (w'.state.jobs.get id).isSome = true ↔
      (w.state.jobs.get id).isSome = true ∨ id ∈ a.admittedTask.toList.map Task.id := by
  have hnot : a.isAdmission = false → a.admittedTask = none := by
    intro hadm
    cases a <;> first | rfl | cases hadm
  by_cases hid : id = a.jobId
  · have hjob : w'.state.jobs.get a.jobId = _ := h.own.job
    cases hadm : a.isAdmission with
    | true =>
      cases a with
      | admitted j owner exec policy =>
        rw [hid, hjob]
        simp [JobView.react, JobView.onAdmitted, Action.admittedTask, Action.jobId]
      | _ => cases hadm
    | false =>
      have hsome := h.outcome.job_isSome ha hadm
      rw [hid, hjob, hsome, hnot hadm]
      simp [World.view]
  · have hjob : w'.state.jobs.get id = w.state.jobs.get id := (h.others id hid).job
    have hmem : id ∉ a.admittedTask.toList.map Task.id := by
      cases a with
      | admitted j owner exec policy =>
        rw [Action.admittedTask, Option.toList_some, List.map_singleton, List.mem_singleton]
        exact hid
      | _ => exact List.not_mem_nil
    rw [hjob]
    simp [hmem]

end Pop

/-- The state of a loop that was fed no polls: the submissions are popped in order, the first
`max_jobs` of them are admitted, started and made jobs, and each has taken a slot; the later ones
are refused. -/
structure Serving (maxJobs : ℕ) (past : List Label) (c : Loop σ) : Prop where
  unfinishing : Unfinishing c.queue
  handled : tasksHandled past ++ c.queue.filterMap Action.submitTask = tasksSubmitted past
  admitted : tasksAdmitted past ++ c.queue.filterMap Action.admittedTask =
    (tasksHandled past).take maxJobs
  started : tasksStarted past ++ c.queue.filterMap Action.startTask = tasksAdmitted past
  refused : (((tasksHandled past).drop maxJobs).map Task.id).Sublist
    (refusalsTold past ++ c.queue.filterMap Action.rejectedId)
  jobs : ∀ id, (c.world.state.jobs.get id).isSome = true ↔
    id ∈ (tasksAdmitted past).map Task.id
  active : c.world.dispatcher.admission.activeJobs = min maxJobs (tasksHandled past).length
  fixed : c.world.dispatcher.admission.maxJobs = maxJobs

namespace Serving

variable {maxJobs : ℕ} {past : List Label} {c c' : Loop σ}

theorem pop {a : Action} {o : PopLog} (h : Serving maxJobs past c)
    (hpop : Pop (World.Step E) c (a, o) c') : Serving maxJobs (past ++ [.pop a o]) c' := by
  have hun := (Loop.unfinishing_pop hpop h.unfinishing).1
  rcases pop_iff.mp hpop with ⟨rest, out, hq, hq', hreact⟩
  have hr := hreact.reacts
  have hout := hr.outcome
  have hfinish : a.isFinish = false := (h.unfinishing a (by rw [hq]; exact List.mem_cons_self)).1
  have hnosubmit : out.filterMap Action.submitTask = [] := hout.start_passes.2
  -- a submission is let in if and only if fewer than `max_jobs` were handled before it
  have hfilter : (tasksHandled past ++ a.submitTask.toList).take maxJobs =
      (tasksHandled past).take maxJobs ++ out.filterMap Action.admittedTask := by
    rw [hr.admits, h.active, h.fixed]
    cases a.submitTask with
    | none => simp
    | some task =>
      rw [Option.toList_some, take_snoc]
      by_cases hfree : (tasksHandled past).length < maxJobs
      · simp [hfree]
      · simp [hfree]
  have hrest : (tasksHandled past ++ a.submitTask.toList).drop maxJobs =
      (tasksHandled past).drop maxJobs ++ a.submitTask.toList.filter fun _ =>
        ¬ c.world.dispatcher.admission.activeJobs < c.world.dispatcher.admission.maxJobs := by
    rw [h.active, h.fixed]
    cases a.submitTask with
    | none => simp
    | some task =>
      rw [Option.toList_some, drop_snoc]
      by_cases hfree : (tasksHandled past).length < maxJobs
      · simp [hfree]
      · simp [hfree]
  have hqueue : ∀ {B : Type} (stage : Action → Option B),
      c.queue.filterMap stage = (stage a).toList ++ rest.filterMap stage := by
    intro B stage
    rw [hq, filterMap_cons_eq]
  constructor
  · exact hun
  · have hbefore := h.handled
    rw [hqueue, ← List.append_assoc] at hbefore
    rw [tasksHandled_pop, hq', List.filterMap_append, hnosubmit, List.append_nil, hbefore,
      tasksSubmitted_pop]
  · have hbefore := h.admitted
    rw [hqueue, ← List.append_assoc] at hbefore
    rw [tasksAdmitted_pop, tasksHandled_pop, hfilter, hq', List.filterMap_append,
      ← List.append_assoc, hbefore]
  · have hbefore := h.started
    rw [hqueue, ← List.append_assoc] at hbefore
    rw [hr.tasksStarted_pop, tasksAdmitted_pop, hq', List.filterMap_append, hout.admitted_passes,
      ← List.append_assoc, hbefore]
  · have hbefore := h.refused
    rw [hqueue, ← List.append_assoc] at hbefore
    have htold : refusalsTold (past ++ [.pop a o]) = refusalsTold past ++ a.rejectedId.toList :=
      filterMap_pops_pop Action.rejectedId past a o
    rw [tasksHandled_pop, hrest, List.map_append, htold, hq', List.filterMap_append,
      ← List.append_assoc]
    exact hbefore.append hr.refuses
  · intro id
    rw [hr.job_iff hfinish, h.jobs, tasksAdmitted_pop, List.map_append, List.mem_append]
  · have hcount := (hr.counts hfinish).2
    rw [tasksHandled_pop, List.length_append, hcount, h.active, h.fixed]
    cases a.submitTask with
    | none => simp
    | some task =>
      by_cases hfree : (tasksHandled past).length < maxJobs
      · simp [hfree]
        omega
      · simp [hfree]
        omega
  · rw [(hr.counts hfinish).1, h.fixed]

theorem feed {acts : List Action} {events : List Event} (h : Serving maxJobs past c)
    (hq : c.queue = []) (hacts : ∀ a ∈ acts, a.isInput = true)
    (hpolls : ∀ a ∈ acts, a.isPoll = false) (hready : ∀ ev ∈ events, ev.isReady = true) :
    Serving maxJobs (past ++ [.feed acts events]) (c.feed acts events) := by
  rcases Loop.feed_stages c hacts hready with ⟨hnone, hsubmits⟩
  have hworld := Loop.feed_world c acts hready
  have hstart : (c.feed acts events).queue.filterMap Action.startTask = [] :=
    List.filterMap_eq_nil_iff.mpr fun a ha => (hnone a ha).1
  have hadmit : (c.feed acts events).queue.filterMap Action.admittedTask = [] :=
    List.filterMap_eq_nil_iff.mpr fun a ha => (hnone a ha).2.1
  have hhandled : tasksHandled (past ++ [.feed acts events]) = tasksHandled past :=
    (tasksHandled_append _ _).trans (List.append_nil _)
  have hadmitted : tasksAdmitted (past ++ [.feed acts events]) = tasksAdmitted past :=
    (tasksAdmitted_append _ _).trans (List.append_nil _)
  have hstarted : tasksStarted (past ++ [.feed acts events]) = tasksStarted past :=
    (tasksStarted_append _ _).trans (List.append_nil _)
  have hwas := h.handled
  have hwasAdmitted := h.admitted
  have hwasStarted := h.started
  rw [hq, List.filterMap_nil, List.append_nil] at hwas hwasAdmitted hwasStarted
  constructor
  · rcases Loop.feed_queue c acts hready with ⟨ready, hqueue, hio⟩
    rw [hqueue]
    intro a ha
    rcases List.mem_append.mp ha with ha | ha
    · exact ⟨(Action.not_finish_of_isInput (hacts a ha)).1, hpolls a ha⟩
    · rcases hio a ha with ⟨id, rfl⟩
      exact ⟨rfl, rfl⟩
  · rw [hhandled, hsubmits, tasksSubmitted_append, hwas]
    show _ = _ ++ (Label.fed [_]).filterMap _
    rw [Label.fed_feed]
  · rw [hhandled, hadmitted, hadmit, List.append_nil, hwasAdmitted]
  · rw [hstarted, hadmitted, hstart, List.append_nil, hwasStarted]
  · have hrefused : refusalsTold (past ++ [.feed acts events]) = refusalsTold past :=
      (refusalsTold_append _ _).trans (List.append_nil _)
    have hwasRefused := h.refused
    rw [hq, List.filterMap_nil, List.append_nil] at hwasRefused
    rw [hhandled, hrefused]
    exact hwasRefused.trans (List.sublist_append_left _ _)
  · rw [hadmitted, hworld]
    exact h.jobs
  · rw [hhandled, hworld]
    exact h.active
  · rw [hworld]
    exact h.fixed

/-- The step lemma: as long as nothing is polled, the invariant is kept. -/
theorem step {l : Label} (h : (∀ a ∈ Label.fed past, a.isPoll = false) → Serving maxJobs past c)
    (hstep : Loop.Step E c l c') (hno : ∀ a ∈ Label.fed (past ++ [l]), a.isPoll = false) :
    Serving maxJobs (past ++ [l]) c' := by
  rw [Label.fed_append] at hno
  have hpast := h fun a ha => hno a (List.mem_append_left _ ha)
  cases hstep with
  | pop hpop => exact hpast.pop hpop
  | @feed acts events hq hacts hready =>
    rw [Label.fed_feed] at hno
    exact hpast.feed hq hacts (fun a ha => hno a (List.mem_append_right _ ha)) hready

theorem run {x : σ} {t : List Label} (hrun : Run (Loop.Step E) (.init maxJobs x) t c)
    (hpolls : ∀ a ∈ Label.fed t, a.isPoll = false) : Serving maxJobs t c := by
  let inv : List Label → Loop σ → Prop := fun past c =>
    (∀ a ∈ Label.fed past, a.isPoll = false) → Serving maxJobs past c
  have hinit : inv [] (Loop.init maxJobs x) := by
    intro _
    constructor
    · exact fun a ha => absurd ha List.not_mem_nil
    · rfl
    · exact List.take_nil.symm
    · rfl
    · simp [tasksHandled, Label.pops]
    · intro id
      simp [Loop.init, ExecutionState.new, tasksAdmitted, Label.pops]
    · simp [Loop.init, Dispatcher.new, tasksHandled, Label.pops]
    · rfl
  have hstep : ∀ past c l c', inv past c → Loop.Step E c l c' → inv (past ++ [l]) c' :=
    fun _ _ _ _ h hs => Serving.step h hs
  have hinv : inv ([] ++ t) c := hrun.invariant_trace [] hstep hinit
  exact hinv hpolls

/-- What is left once the queue is empty. -/
theorem idle {t : List Label} (h : Serving maxJobs t c) (hq : c.queue = []) :
    tasksStarted t = (tasksSubmitted t).take maxJobs ∧
      (∀ id, (c.world.state.jobs.get id).isSome = true ↔
        id ∈ ((tasksSubmitted t).take maxJobs).map Task.id) ∧
      c.world.dispatcher.admission.activeJobs = min maxJobs (tasksSubmitted t).length := by
  have hhandled := h.handled
  have hadmitted := h.admitted
  have hstarted := h.started
  rw [hq, List.filterMap_nil, List.append_nil] at hhandled hadmitted hstarted
  rw [hhandled] at hadmitted
  refine ⟨hstarted.trans hadmitted, ?_, ?_⟩
  · rw [← hadmitted]
    exact h.jobs
  · rw [h.active, hhandled]

theorem idle_refused {t : List Label} (h : Serving maxJobs t c) (hq : c.queue = []) :
    (((tasksSubmitted t).drop maxJobs).map Task.id).Sublist (refusalsTold t) := by
  have hhandled := h.handled
  have hrefused := h.refused
  rw [hq, List.filterMap_nil, List.append_nil] at hhandled hrefused
  rwa [← hhandled]

end Serving

/-- As long as nothing is polled, the loop serves the first `max_jobs` submissions and no other:
whenever its queue is empty, these are the commands that the executor was asked to start, in
order, their ids are the jobs in the map, and each of them holds a slot. -/
theorem serves_first {maxJobs : ℕ} {x : σ} {t : List Label} {c : Loop σ}
    (hrun : Run (Loop.Step E) (.init maxJobs x) t c)
    (hpolls : ∀ a ∈ Label.fed t, a.isPoll = false) (hq : c.queue = []) :
    tasksStarted t = (tasksSubmitted t).take maxJobs ∧
      (∀ id, (c.world.state.jobs.get id).isSome = true ↔
        id ∈ ((tasksSubmitted t).take maxJobs).map Task.id) ∧
      c.world.dispatcher.admission.activeJobs = min maxJobs (tasksSubmitted t).length :=
  (Serving.run hrun hpolls).idle hq

namespace EffectExecutor

theorem serves_first_crowded :
    (tasksStarted crowdedLabels = (tasksSubmitted crowdedLabels).take 2 ∧
      (∀ id, (crowded.2.world.state.jobs.get id).isSome = true ↔
        id ∈ ((tasksSubmitted crowdedLabels).take 2).map Task.id) ∧
      crowded.2.world.dispatcher.admission.activeJobs =
        min 2 (tasksSubmitted crowdedLabels).length) ∧
    startsTold crowdedLabels = [1, 2] :=
  ⟨serves_first crowded_run (by decide) (by decide), by decide⟩

end EffectExecutor
end CoreShift
